import CsiHttp.Lib.Wire
import CsiHttp.Server.Reply

/-!
# The headers that `create` leaves

`create` keeps the first `extra_headers` entries of the list, cuts off the rest and writes its
own headers behind them. What it keeps depends on everything that was done to the reply since
`reset`: the entries kept may be headers of an earlier `create`.
-/
namespace CsiHttp.Server

open Lib Lib.Text

/-- What a handler, or the connection in its place, does to a reply. -/
inductive ReplyCall
  | write (bytes : Bytes)
  | create (status : StatusType) (contentType : Bytes) (extraHeaders : Nat)
  | add (h : Header)

/-- A header that is not one of those that `create` writes. -/
def IsExtra (h : Header) : Prop := h.name ≠ contentLengthName ∧ h.name ≠ contentTypeName

instance (h : Header) : Decidable (IsExtra h) := inferInstanceAs (Decidable (_ ∧ _))

namespace ReplyCall

/-- The content that a call writes. -/
def bytes : ReplyCall → Bytes
  | .write bytes => bytes
  | .create _ _ _ => []
  | .add _ => []

/-- The number of headers that a `create` is told to keep. -/
def kept : ReplyCall → Option Nat
  | .write _ => none
  | .create _ _ n => some n
  | .add _ => none

/-- The headers that a call adds are not those of `create`. -/
def AddsExtra : ReplyCall → Prop
  | .add h => IsExtra h
  | .write _ => True
  | .create _ _ _ => True

instance : (call : ReplyCall) → Decidable call.AddsExtra
  | .add h => inferInstanceAs (Decidable (IsExtra h))
  | .write _ => isTrue trivial
  | .create _ _ _ => isTrue trivial

end ReplyCall

/-- The content that calls write. -/
def writtenBy (calls : List ReplyCall) : Bytes := calls.flatMap ReplyCall.bytes

/-- The numbers of headers that the `create` calls keep. -/
def keptBy (calls : List ReplyCall) : List Nat := calls.filterMap ReplyCall.kept

namespace Reply

def apply (r : Reply) : ReplyCall → Except Fault Reply
  | .write bytes => r.writeContent bytes
  | .create s ct n => r.create s ct n
  | .add h => .ok (r.add h)

def applyAll (r : Reply) : List ReplyCall → Except Fault Reply
  | [] => .ok r
  | call :: calls => (r.apply call).bind (fun r' => r'.applyAll calls)

/-- The header list announces this content: one length, which is the right one, and one type
unless there is nothing to have one. -/
@[mk_iff]
structure Announces (hs : List Header) (content : Bytes) : Prop where
  length : ∃ h, hs.filter (fun h => h.name = contentLengthName) = [h] ∧
    Wire.readDecimal h.value = some content.length
  type : hs.countP (fun h => h.name = contentTypeName) = if content = [] then 0 else 1

/-! ## One call -/

/-- An entry that is there before and after keeps its place. -/
theorem getElem?_resize {hs : List Header} {n i : Nat} (hi : i < n) (hlen : i < hs.length) :
    (resize hs n)[i]? = hs[i]? := by
  have htake : i < (hs.take n).length := by
    rw [List.length_take]
    omega
  rw [resize, List.getElem?_append_left htake, List.getElem?_take_of_lt hi]

theorem mem_resize {hs : List Header} {n : Nat} {h : Header} (hmem : h ∈ resize hs n) :
    h ∈ hs.take n ∨ h = ⟨[], []⟩ := by
  rw [resize, List.mem_append] at hmem
  cases hmem with
  | inl htake => exact Or.inl htake
  | inr hblank => exact Or.inr (List.eq_of_mem_replicate hblank)

theorem blank_isExtra : IsExtra ⟨[], []⟩ := by
  constructor
  · decide
  · decide

/-- Extra headers do not count for what a list announces. -/
theorem filter_extra {hs : List Header} (h : ∀ e ∈ hs, IsExtra e) :
    hs.filter (fun h => h.name = contentLengthName) = [] ∧
      hs.countP (fun h => h.name = contentTypeName) = 0 := by
  constructor
  · apply List.filter_eq_nil_iff.mpr
    intro e he
    simp [(h e he).1]
  · apply List.countP_eq_zero.mpr
    intro e he
    simp [(h e he).2]

theorem announces_append_left {hs : List Header} (h : ∀ e ∈ hs, IsExtra e) (own : List Header)
    (content : Bytes) : Announces (hs ++ own) content ↔ Announces own content := by
  obtain ⟨hlength, htype⟩ := filter_extra h
  rw [announces_iff, announces_iff, List.filter_append, List.countP_append, hlength, htype,
    List.nil_append, Nat.zero_add]

theorem announces_append_right {hs : List Header} (h : ∀ e ∈ hs, IsExtra e) (own : List Header)
    (content : Bytes) : Announces (own ++ hs) content ↔ Announces own content := by
  obtain ⟨hlength, htype⟩ := filter_extra h
  rw [announces_iff, announces_iff, List.filter_append, List.countP_append, hlength, htype,
    List.append_nil, Nat.add_zero]

/-- On their own, the headers that `create` writes are right. -/
theorem ownHeaders_announce {content : Bytes} (ct : Bytes) (h : content.length < 2147483648) :
    Announces (ownHeaders content ct) content := by
  have hread := (Wire.readDecimal_toInt32 content.length).mpr h
  have hne : contentTypeName ≠ contentLengthName := by decide
  constructor
  · refine ⟨⟨contentLengthName, decimal (toInt32 content.length)⟩, ?_, hread⟩
    by_cases hnil : content = []
    · simp [ownHeaders, hnil]
    · simp [ownHeaders, hnil, hne]
  · by_cases hnil : content = []
    · simp [ownHeaders, hnil, hne.symm]
    · simp [ownHeaders, hnil, hne.symm]

/-! ## Every sequence of calls -/

/-- The list of headers after `create` calls that kept these numbers of entries. The entries
before all the places where `create` wrote are extra ones, and at or before each of these places
there is a length. -/
structure Laid (kept : List Nat) (hs : List Header) : Prop where
  extra : ∀ n, (∀ k ∈ kept, n ≤ k) → ∀ e ∈ hs.take n, IsExtra e
  written : ∀ k ∈ kept, ∃ i e, i ≤ k ∧ hs[i]? = some e ∧ e.name = contentLengthName

theorem laid_nil : Laid [] [] := by
  constructor
  · intro n _ e he
    rw [List.take_nil] at he
    exact absurd he List.not_mem_nil
  · intro k hk
    exact absurd hk List.not_mem_nil

/-- Adding an extra header moves nothing. -/
theorem Laid.add {kept : List Nat} {hs : List Header} (hlaid : Laid kept hs) {h : Header}
    (hextra : IsExtra h) : Laid kept (hs ++ [h]) := by
  constructor
  · intro n hn e he
    rw [List.take_append, List.mem_append] at he
    cases he with
    | inl hold => exact hlaid.extra n hn e hold
    | inr hnew =>
      rw [List.mem_singleton.mp (List.mem_of_mem_take hnew)]
      exact hextra
  · intro k hk
    obtain ⟨i, e, hi, he, hname⟩ := hlaid.written k hk
    have hlt : i < hs.length := (List.getElem?_eq_some_iff.mp he).1
    exact ⟨i, e, hi, by rw [List.getElem?_append_left hlt, he], hname⟩

/-- `create` keeps a prefix and writes a length behind it. An earlier length is in that prefix, or
the new one comes no later. -/
theorem Laid.create {kept : List Nat} {hs : List Header} (hlaid : Laid kept hs) (n : Nat)
    (content ct : Bytes) : Laid (kept ++ [n]) (resize hs n ++ ownHeaders content ct) := by
  have hlen := length_resize hs n
  have hown : (resize hs n ++ ownHeaders content ct)[n]?
      = some ⟨contentLengthName, decimal (toInt32 content.length)⟩ := by
    rw [List.getElem?_append_right (by omega), hlen, Nat.sub_self]
    rfl
  constructor
  · intro m hm e he
    obtain ⟨hkept, hmn⟩ := List.forall_mem_append.mp hm
    have hle : m ≤ n := hmn n (List.mem_singleton_self n)
    rw [List.take_append_of_le_length (by omega), take_resize hs hle] at he
    cases mem_resize he with
    | inl hold => exact hlaid.extra m hkept e hold
    | inr hblank =>
      rw [hblank]
      exact blank_isExtra
  · intro k hk
    cases List.mem_append.mp hk with
    | inl hold =>
      obtain ⟨i, e, hi, he, hname⟩ := hlaid.written k hold
      by_cases hin : i < n
      · refine ⟨i, e, hi, ?_, hname⟩
        rw [List.getElem?_append_left (by omega),
          getElem?_resize hin (List.getElem?_eq_some_iff.mp he).1, he]
      · exact ⟨n, _, by omega, hown, rfl⟩
    | inr hnew =>
      rw [List.mem_singleton.mp hnew]
      exact ⟨n, _, Nat.le_refl n, hown, rfl⟩

/-- A `create` in such a list announces the content exactly if no earlier one kept less. -/
theorem announces_create_iff {kept : List Nat} {hs : List Header} (hlaid : Laid kept hs) (n : Nat)
    {content : Bytes} (ct : Bytes) (h : content.length < 2147483648) :
    Announces (resize hs n ++ ownHeaders content ct) content ↔ ∀ k ∈ kept, n ≤ k := by
  constructor
  · intro hann k hk
    by_contra hlt
    obtain ⟨i, e, hi, he, hname⟩ := hlaid.written k hk
    have hin : i < n := by omega
    have hmem : e ∈ resize hs n := by
      apply List.mem_of_getElem? (i := i)
      rw [getElem?_resize hin (List.getElem?_eq_some_iff.mp he).1, he]
    obtain ⟨only, honly, -⟩ := hann.length
    obtain ⟨own, hown, -⟩ := (ownHeaders_announce ct h).length
    rw [List.filter_append, hown] at honly
    have hnone : (resize hs n).filter (fun h => h.name = contentLengthName) = [] := by
      apply List.eq_nil_of_length_eq_zero
      have hlen := congrArg List.length honly
      rw [List.length_append, List.length_singleton, List.length_singleton] at hlen
      omega
    have hfound := List.filter_eq_nil_iff.mp hnone e hmem
    exact hfound (decide_eq_true hname)
  · intro hkept
    apply (announces_append_left ?_ _ _).mpr (ownHeaders_announce ct h)
    intro e he
    cases mem_resize he with
    | inl hold => exact hlaid.extra n hkept e hold
    | inr hblank =>
      rw [hblank]
      exact blank_isExtra

theorem applyAll_append (r : Reply) (calls more : List ReplyCall) :
    r.applyAll (calls ++ more) = (r.applyAll calls).bind (fun r' => r'.applyAll more) := by
  induction calls generalizing r with
  | nil => rfl
  | cons call calls ih =>
    rw [List.cons_append, applyAll, applyAll]
    cases r.apply call with
    | error f => rfl
    | ok r' => exact ih r'

/-- A handler's calls never fail on a reply that has its buffer, and the content grows by what
they write. -/
theorem applyAll_laid {calls : List ReplyCall} (hextra : ∀ call ∈ calls, call.AddsExtra)
    {r : Reply} {content : Bytes} {kept : List Nat} (hbuffer : r.txBuffer = some content)
    (hlaid : Laid kept r.headers) :
    ∃ r', r.applyAll calls = .ok r' ∧ r'.txBuffer = some (content ++ writtenBy calls) ∧
      Laid (kept ++ keptBy calls) r'.headers := by
  induction calls generalizing r content kept with
  | nil =>
    refine ⟨r, rfl, ?_, ?_⟩
    · rw [hbuffer, writtenBy, List.flatMap_nil, List.append_nil]
    · rw [keptBy, List.filterMap_nil, List.append_nil]
      exact hlaid
  | cons call calls ih =>
    obtain ⟨hcall, hcalls⟩ := List.forall_mem_cons.mp hextra
    cases call with
    | write bytes =>
      obtain ⟨r', hrun, htx, hlaid'⟩ :=
        ih (r := { r with txBuffer := some (content ++ bytes) }) hcalls rfl hlaid
      refine ⟨r', ?_, ?_, hlaid'⟩
      · rw [applyAll, apply, writeContent, deref, hbuffer]
        exact hrun
      · rw [htx, List.append_assoc]
        rfl
    | create s ct n =>
      obtain ⟨r', hrun, htx, hlaid'⟩ := ih hcalls
        (r := { r with status := s, headers := resize r.headers n ++ ownHeaders content ct })
        hbuffer (hlaid.create n content ct)
      refine ⟨r', ?_, htx, ?_⟩
      · rw [applyAll, apply, create_eq hbuffer]
        exact hrun
      · rw [List.append_assoc] at hlaid'
        exact hlaid'
    | add h =>
      obtain ⟨r', hrun, htx, hlaid'⟩ := ih (r := r.add h) hcalls hbuffer (hlaid.add hcall)
      exact ⟨r', hrun, htx, hlaid'⟩

theorem applyAll_adds (r : Reply) (added : List Header) :
    r.applyAll (added.map .add) = .ok { r with headers := r.headers ++ added } := by
  induction added generalizing r with
  | nil => rw [List.append_nil]; rfl
  | cons h added ih =>
    rw [List.map_cons, applyAll, apply]
    refine (ih (r.add h)).trans ?_
    rw [add, List.append_assoc]
    rfl

/-- Whatever was done to a reply since `reset`, the headers announce its content after the
`create` that follows the last write exactly if no earlier `create` kept fewer headers. -/
theorem announces_iff_kept (r : Reply) (calls : List ReplyCall) (s : StatusType) (ct : Bytes)
    (n : Nat) (added : List Header) (hcalls : ∀ call ∈ calls, call.AddsExtra)
    (hadded : ∀ h ∈ added, IsExtra h) (hlength : (writtenBy calls).length < 2147483648) :
    ∃ made, r.reset.applyAll (calls ++ .create s ct n :: added.map .add) = .ok made ∧
      made.txBuffer = some (writtenBy calls) ∧
      (Announces made.headers (writtenBy calls) ↔ ∀ k ∈ keptBy calls, n ≤ k) := by
  obtain ⟨before, hrun, htx, hlaid⟩ :=
    applyAll_laid (r := r.reset) hcalls (show r.reset.txBuffer = some [] from rfl) laid_nil
  rw [List.nil_append] at htx hlaid
  obtain ⟨made, hmade⟩ : ∃ made, made = { before with
      status := s
      headers := resize before.headers n ++ ownHeaders (writtenBy calls) ct ++ added } := ⟨_, rfl⟩
  refine ⟨made, ?_, by rw [hmade, htx], ?_⟩
  · rw [applyAll_append, hrun, hmade]
    show (before.create s ct n).bind (fun r' => r'.applyAll (added.map .add)) = _
    rw [create_eq htx]
    exact applyAll_adds _ added
  · rw [hmade, announces_append_right hadded]
    exact announces_create_iff hlaid n ct hlength

/-- An error reply over a success reply that was begun with an extra header. -/
theorem announces_iff_kept_replaced :
    let calls : List ReplyCall :=
      [.add ⟨ascii "ETag", ascii "1"⟩, .write (ascii "hello"), .create .ok textHtml 1]
    ∃ made, (new .undefined).reset.applyAll
        (calls ++ .create .badRequest textHtml 0 :: [⟨ascii "Connection", ascii "close"⟩].map .add)
          = .ok made ∧
      made.txBuffer = some (ascii "hello") ∧
      (Announces made.headers (ascii "hello") ↔ ∀ k ∈ [1], 0 ≤ k) := by
  exact announces_iff_kept _ _ _ _ _ _ (by decide) (by decide) (by decide)

/-- The header that the second `create` keeps is the length of the first. -/
theorem keepingOne_not_announced :
    ¬ ∀ (r : Reply) (calls : List ReplyCall) (s : StatusType) (ct : Bytes) (n : Nat),
      (∀ call ∈ calls, call.AddsExtra) → (writtenBy calls).length < 2147483648 →
      ∃ made, r.reset.applyAll (calls ++ [.create s ct n]) = .ok made ∧
        Announces made.headers (writtenBy calls) := by
  intro h
  obtain ⟨made, hmade, hann⟩ := h (new .undefined) [.create .ok textHtml 0] .ok textHtml 1
    (by decide) (by decide)
  have htwo : (new .undefined).reset.applyAll
      [.create .ok textHtml 0, .create .ok textHtml 1]
        = .ok ⟨.ok, [⟨contentLengthName, ascii "0"⟩, ⟨contentLengthName, ascii "0"⟩], some [], none⟩ := by
    rfl
  obtain rfl := Except.ok.inj (hmade.symm.trans htwo)
  obtain ⟨only, honly, -⟩ := hann.length
  have hlen : 2 = [only].length := congrArg List.length honly
  simp at hlen

end Reply

end CsiHttp.Server

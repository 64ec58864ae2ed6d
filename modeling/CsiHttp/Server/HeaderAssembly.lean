import CsiHttp.Server.Connection

/-!
# What the header callbacks assemble

A name and its value grow piece by piece in two arrays and are committed only when the
next name begins or the section ends. `Naming` describes a connection that is about to
take a piece of a name, `Valuing` one that is taking a value. The arrays are read back
as C strings, so a zero byte inside a name or a value cuts off the rest of it.
-/
namespace CsiHttp.Server

open Lib Lib.Text

/-- Name and value leave room for the terminating zero. -/
def HeaderPieces.Fits (p : HeaderPieces) : Prop :=
  p.header.name.length < maxHeaderSize ∧ p.header.value.length < maxHeaderSize

instance (p : HeaderPieces) : Decidable p.Fits := inferInstanceAs (Decidable (_ ∧ _))

/-- The header as it is committed: each part read as a C string, in lower case. -/
def HeaderPieces.stored (p : HeaderPieces) : Header :=
  Header.lowered ⟨cstring p.header.name, cstring p.header.value⟩

theorem HeaderPieces.stored_of_nulFree {p : HeaderPieces} (h : p.header.NulFree) :
    p.stored = p.header.lowered := by
  unfold HeaderPieces.stored
  rw [cstring_eq_self_iff.mpr h.1, cstring_eq_self_iff.mpr h.2]

namespace Connection

variable {State : Type} (parseUrl : Bytes → Option UrlFields)
variable {c c' : Connection State} {base : List Header} {name s : Bytes}

/-- Only the header list and the header scratch space differ. -/
def HeadersOnly (c c' : Connection State) : Prop :=
  c' = { c with
    request := { c.request with headers := c'.request.headers }
    lastHeaderWasValue := c'.lastHeaderWasValue
    currentHeaderKey := c'.currentHeaderKey
    currentHeaderVal := c'.currentHeaderVal
    currentHeaderKeyLen := c'.currentHeaderKeyLen
    currentHeaderValLen := c'.currentHeaderValLen }

theorem HeadersOnly.refl (c : Connection State) : HeadersOnly c c := rfl

theorem HeadersOnly.trans {c'' : Connection State} (h : HeadersOnly c c') (h' : HeadersOnly c' c'') :
    HeadersOnly c c'' := by
  unfold HeadersOnly at h h' ⊢
  rw [h] at h'
  exact h'

/-- The text `s` of a name is under construction; what was pending counts as committed. -/
structure Naming (c : Connection State) (base : List Header) (s : Bytes) : Prop where
  headers : c.commitPending.request.headers = base
  keyLen : c.commitPending.currentHeaderKeyLen = s.length
  valLen : c.commitPending.currentHeaderValLen = 0
  key : c.commitPending.currentHeaderKey.Holds s
  val : c.commitPending.currentHeaderVal.Holds []

/-- The text `s` of the value of `name` is under construction. -/
structure Valuing (c : Connection State) (base : List Header) (name s : Bytes) : Prop where
  headers : c.request.headers = base
  keyLen : c.currentHeaderKeyLen = name.length
  valLen : c.currentHeaderValLen = s.length
  key : c.currentHeaderKey.Holds name
  val : c.currentHeaderVal.Holds s

theorem maxHeaderSize_pos : 0 < maxHeaderSize := by decide

/-- `on_message_begin` leaves nothing of an earlier message behind. -/
theorem naming_messageBegin (c : Connection State) : Naming c.onMessageBegin [] [] where
  headers := rfl
  keyLen := rfl
  valLen := rfl
  key := CharArray.clear_holds _ maxHeaderSize_pos
  val := CharArray.clear_holds _ maxHeaderSize_pos

theorem commitPending_of_name (h : c.lastHeaderWasValue = false) : c.commitPending = c := by
  simp [commitPending, h]

theorem headersOnly_commitPending (c : Connection State) : HeadersOnly c c.commitPending := by
  unfold commitPending
  split <;> rfl

/-- A piece of a name is appended when it fits and is a fault when it does not. -/
theorem Naming.field (h : Naming c base s) {piece : Bytes}
    (hfit : s.length + piece.length < maxHeaderSize) :
    ∃ c', c.callback parseUrl (.headerField piece) = .ok (c', 0) ∧ Naming c' base (s ++ piece) ∧
      c'.lastHeaderWasValue = false ∧ HeadersOnly c c' := by
  have hsome : (c.commitPending.currentHeaderKey.append c.commitPending.currentHeaderKeyLen
      piece).isSome := by
    rw [CharArray.append_isSome, h.keyLen]
    exact hfit
  obtain ⟨key, hk⟩ := Option.isSome_iff_exists.mp hsome
  refine ⟨_, by simp only [callback, onHeaderField, hk]; rfl, ?_, rfl, ?_⟩
  · constructor
    · exact h.headers
    · simp only [commitPending_of_name, h.keyLen, List.length_append]
    · exact h.valLen
    · rw [h.keyLen] at hk
      exact CharArray.append_holds h.key hk
    · exact h.val
  · exact (headersOnly_commitPending c).trans rfl

theorem Naming.field_overflow (h : Naming c base s) {piece : Bytes}
    (hfit : ¬ s.length + piece.length < maxHeaderSize) :
    c.callback parseUrl (.headerField piece) = .error .headerOverflow := by
  have hnone : c.commitPending.currentHeaderKey.append c.commitPending.currentHeaderKeyLen piece
      = none := by
    rw [← Option.not_isSome_iff_eq_none, CharArray.append_isSome, h.keyLen]
    exact hfit
  simp only [callback, onHeaderField, hnone]
  rfl

/-- After a piece of a name the next callback may carry a value. -/
theorem Naming.valuing (h : Naming c base s) (hflag : c.lastHeaderWasValue = false) :
    Valuing c base s [] := by
  have hc := commitPending_of_name hflag
  exact ⟨hc ▸ h.headers, hc ▸ h.keyLen, hc ▸ h.valLen, hc ▸ h.key, hc ▸ h.val⟩

theorem Valuing.value (h : Valuing c base name s) {piece : Bytes}
    (hfit : s.length + piece.length < maxHeaderSize) :
    ∃ c', c.callback parseUrl (.headerValue piece) = .ok (c', 0) ∧
      Valuing c' base name (s ++ piece) ∧ c'.lastHeaderWasValue = true ∧ HeadersOnly c c' := by
  have hsome : (c.currentHeaderVal.append c.currentHeaderValLen piece).isSome := by
    rw [CharArray.append_isSome, h.valLen]
    exact hfit
  obtain ⟨val, hv⟩ := Option.isSome_iff_exists.mp hsome
  refine ⟨_, by simp only [callback, onHeaderValue, hv]; rfl, ?_, rfl, ?_⟩
  rotate_left
  · rfl
  constructor
  · exact h.headers
  · exact h.keyLen
  · simp only [h.valLen, List.length_append]
  · exact h.key
  · rw [h.valLen] at hv
    exact CharArray.append_holds h.val hv

theorem Valuing.value_overflow (h : Valuing c base name s) {piece : Bytes}
    (hfit : ¬ s.length + piece.length < maxHeaderSize) :
    c.callback parseUrl (.headerValue piece) = .error .headerOverflow := by
  have hnone : c.currentHeaderVal.append c.currentHeaderValLen piece = none := by
    rw [← Option.not_isSome_iff_eq_none, CharArray.append_isSome, h.valLen]
    exact hfit
  simp only [callback, onHeaderValue, hnone]
  rfl

/-- Once a value has been seen, the pair counts as committed, in lower case. -/
theorem Valuing.naming (h : Valuing c base name s) (hflag : c.lastHeaderWasValue = true) :
    Naming c (base ++ [Header.lowered ⟨cstring name, cstring s⟩]) [] := by
  have hc : c.commitPending = c.commitHeader := by simp [commitPending, hflag]
  constructor
  · rw [hc]
    simp only [commitHeader, h.headers, CharArray.cstr_toLower, h.key.cstr, h.val.cstr]
    rfl
  · rw [hc]; rfl
  · rw [hc]; rfl
  · rw [hc]; exact CharArray.clear_holds _ maxHeaderSize_pos
  · rw [hc]; exact CharArray.clear_holds _ maxHeaderSize_pos

/-! ## All pieces of a name, of a value, of a header -/

theorem Naming.fields (pieces : List Bytes) (h : Naming c base s)
    (hfit : s.length + pieces.flatten.length < maxHeaderSize)
    (hflag : pieces ≠ [] ∨ c.lastHeaderWasValue = false) :
    ∃ c', Delivers parseUrl c (pieces.map .headerField) c' ∧ Naming c' base (s ++ pieces.flatten) ∧
      c'.lastHeaderWasValue = false ∧ HeadersOnly c c' := by
  induction pieces generalizing c s with
  | nil =>
    rcases hflag with hne | hflag
    · exact absurd rfl hne
    · exact ⟨c, .refl, by simpa using h, hflag, .refl c⟩
  | cons p ps ih =>
    rw [List.flatten_cons, List.length_append] at hfit
    obtain ⟨c1, h1, hn, hf, ho⟩ := h.field parseUrl (show s.length + p.length < _ by omega)
    obtain ⟨c2, h2, hn2, hf2, ho2⟩ := ih hn (by rw [List.length_append]; omega) (Or.inr hf)
    refine ⟨c2, .cons h1 h2, ?_, hf2, ho.trans ho2⟩
    rwa [List.flatten_cons, ← List.append_assoc]

theorem Naming.fields_overflow (pieces : List Bytes) (h : Naming c base s)
    (hs : s.length < maxHeaderSize) (hfit : ¬ s.length + pieces.flatten.length < maxHeaderSize) :
    (c.deliver parseUrl (pieces.map .headerField)).stop = .fault .headerOverflow := by
  induction pieces generalizing c s with
  | nil => exact absurd hs (by simpa using hfit)
  | cons p ps ih =>
    rw [List.flatten_cons, List.length_append] at hfit
    by_cases hp : s.length + p.length < maxHeaderSize
    · obtain ⟨c1, h1, hn, -, -⟩ := h.field parseUrl hp
      rw [List.map_cons, deliver_cons_ok h1]
      exact ih hn (by rwa [List.length_append]) (by rw [List.length_append]; omega)
    · rw [List.map_cons, deliver_cons_error (h.field_overflow parseUrl hp)]

theorem Valuing.values (pieces : List Bytes) (h : Valuing c base name s)
    (hfit : s.length + pieces.flatten.length < maxHeaderSize)
    (hflag : pieces ≠ [] ∨ c.lastHeaderWasValue = true) :
    ∃ c', Delivers parseUrl c (pieces.map .headerValue) c' ∧
      Valuing c' base name (s ++ pieces.flatten) ∧ c'.lastHeaderWasValue = true ∧
      HeadersOnly c c' := by
  induction pieces generalizing c s with
  | nil =>
    rcases hflag with hne | hflag
    · exact absurd rfl hne
    · exact ⟨c, .refl, by simpa using h, hflag, .refl c⟩
  | cons p ps ih =>
    rw [List.flatten_cons, List.length_append] at hfit
    obtain ⟨c1, h1, hv, hf, ho⟩ := h.value parseUrl (show s.length + p.length < _ by omega)
    obtain ⟨c2, h2, hv2, hf2, ho2⟩ := ih hv (by rw [List.length_append]; omega) (Or.inr hf)
    refine ⟨c2, .cons h1 h2, ?_, hf2, ho.trans ho2⟩
    rwa [List.flatten_cons, ← List.append_assoc]

theorem Valuing.values_overflow (pieces : List Bytes) (h : Valuing c base name s)
    (hs : s.length < maxHeaderSize) (hfit : ¬ s.length + pieces.flatten.length < maxHeaderSize) :
    (c.deliver parseUrl (pieces.map .headerValue)).stop = .fault .headerOverflow := by
  induction pieces generalizing c s with
  | nil => exact absurd hs (by simpa using hfit)
  | cons p ps ih =>
    rw [List.flatten_cons, List.length_append] at hfit
    by_cases hp : s.length + p.length < maxHeaderSize
    · obtain ⟨c1, h1, hv, -, -⟩ := h.value parseUrl hp
      rw [List.map_cons, deliver_cons_ok h1]
      exact ih hv (by rwa [List.length_append]) (by rw [List.length_append]; omega)
    · rw [List.map_cons, deliver_cons_error (h.value_overflow parseUrl hp)]

/-- One header that fits leaves its name and value in the arrays, not yet committed. -/
theorem Naming.header {p : HeaderPieces} (h : Naming c base []) (hd : p.Delivered)
    (hfit : p.Fits) :
    ∃ c', Delivers parseUrl c p.calls c' ∧ Valuing c' base p.header.name p.header.value ∧
      c'.lastHeaderWasValue = true ∧ HeadersOnly c c' := by
  obtain ⟨c1, h1, hn, hf, ho⟩ := h.fields parseUrl p.name
    (by rw [List.length_nil, Nat.zero_add]; exact hfit.1) (Or.inl hd.1)
  obtain ⟨c2, h2, hv, hf2, ho2⟩ := (hn.valuing hf).values parseUrl p.value
    (by rw [List.length_nil, Nat.zero_add]; exact hfit.2) (Or.inl hd.2)
  exact ⟨c2, h1.append h2, hv, hf2, ho.trans ho2⟩

theorem Naming.header_overflow {p : HeaderPieces} (h : Naming c base []) (hd : p.Delivered)
    (hfit : ¬ p.Fits) :
    (c.deliver parseUrl p.calls).stop = .fault .headerOverflow := by
  unfold HeaderPieces.calls
  by_cases hname : p.name.flatten.length < maxHeaderSize
  · obtain ⟨c1, h1, hn, hf, -⟩ := h.fields parseUrl p.name
      (by simpa using hname) (Or.inl hd.1)
    have hvalue : ¬ p.value.flatten.length < maxHeaderSize := fun hv => hfit ⟨hname, hv⟩
    rw [h1.deliver_append]
    exact (hn.valuing hf).values_overflow parseUrl p.value maxHeaderSize_pos (by simpa using hvalue)
  · have hstop := h.fields_overflow parseUrl p.name maxHeaderSize_pos
      (by simpa using hname)
    exact stop_append_of_fault hstop

/-! ## A header section -/

/-- A section whose headers all fit is taken in whole, each header exactly once. -/
theorem Naming.section {hs : List HeaderPieces} (h : Naming c base [])
    (hd : ∀ p ∈ hs, p.Delivered) (hfit : ∀ p ∈ hs, p.Fits) :
    ∃ c', Delivers parseUrl c (hs.flatMap HeaderPieces.calls) c' ∧
      Naming c' (base ++ hs.map HeaderPieces.stored) [] ∧
      (c'.lastHeaderWasValue = (c.lastHeaderWasValue || !hs.isEmpty)) ∧ HeadersOnly c c' := by
  induction hs generalizing c base with
  | nil => exact ⟨c, .refl, by simpa using h, by simp, .refl c⟩
  | cons p ps ih =>
    rw [List.forall_mem_cons] at hd hfit
    obtain ⟨c1, h1, hv, hf, ho⟩ := h.header parseUrl hd.1 hfit.1
    obtain ⟨c2, h2, hn2, hf2, ho2⟩ := ih (hv.naming hf) hd.2 hfit.2
    refine ⟨c2, h1.append h2, ?_, ?_, ho.trans ho2⟩
    · rwa [List.append_assoc] at hn2
    · rw [hf2, hf]
      simp

/-- A section with a header that does not fit overruns an array. -/
theorem Naming.section_overflow {hs : List HeaderPieces} (h : Naming c base [])
    (hd : ∀ p ∈ hs, p.Delivered) (hfit : ¬ ∀ p ∈ hs, p.Fits) :
    (c.deliver parseUrl (hs.flatMap HeaderPieces.calls)).stop = .fault .headerOverflow := by
  induction hs generalizing c base with
  | nil => exact absurd (fun p hp => absurd hp List.not_mem_nil) hfit
  | cons p ps ih =>
    rw [List.forall_mem_cons] at hd hfit
    rw [List.flatMap_cons]
    by_cases hp : p.Fits
    · obtain ⟨c1, h1, hv, hf, -⟩ := h.header parseUrl hd.1 hp
      rw [h1.deliver_append]
      exact ih (hv.naming hf) hd.2 (fun hps => hfit ⟨hp, hps⟩)
    · have hstop := h.header_overflow parseUrl hd.1 hp
      exact stop_append_of_fault hstop

end Connection

end CsiHttp.Server

import CsiHttp.Server.Connection

/-!
# What `on_url` assembles from the pieces of a request target

The callback parses every piece as a URL of its own and appends the path and the query
it finds. Whether that gives the path and the query of the whole target depends on
where the cuts fall: a piece is right only when it looks like the beginning of a
target, and nothing may follow the piece with the question mark.
-/
namespace CsiHttp.Server

open Lib.Text

/-- A string on which `http_parser_parse_url` starts to read a path. -/
def isRooted : Bytes → Bool
  | [] => false
  | b :: _ => b == 47 || b == 42

/-- The path of a target: everything up to the question mark. -/
def pathPart (s : Bytes) : Bytes := s.takeWhile (· != 63)

/-- The query of a target: everything after the first question mark. -/
def queryPart (s : Bytes) : Bytes := (s.dropWhile (· != 63)).drop 1

/-- Printable characters other than the blank and `#`. -/
def Printable (s : Bytes) : Prop := ∀ b ∈ s, 33 ≤ b ∧ b ≤ 126 ∧ b ≠ 35

/-- `/path` or `/path?query`. -/
def Target (s : Bytes) : Prop := s.head? = some 47 ∧ Printable s

instance (s : Bytes) : Decidable (Printable s) := List.decidableBAll _ _

instance (s : Bytes) : Decidable (Target s) := inferInstanceAs (Decidable (_ ∧ _))

/-- What is used of `http_parser_parse_url`. Any other string it accepts has a scheme
and `://` in front, which belong to neither the path nor the query. -/
structure ReadsTargets (parseUrl : Bytes → Option UrlFields) : Prop where
  rooted : ∀ s, isRooted s → Printable s → parseUrl s =
    some ⟨some (pathPart s), if queryPart s = [] then none else some (queryPart s)⟩
  absolute : ∀ s f, isRooted s = false → parseUrl s = some f →
    (f.path.getD []).length + (f.query.getD []).length + 1 < s.length

/-- Every piece is accepted when it is parsed on its own. -/
def Accepted (parseUrl : Bytes → Option UrlFields) (pieces : List Bytes) : Prop :=
  ∀ p ∈ pieces, (parseUrl p).isSome

instance (parseUrl : Bytes → Option UrlFields) (pieces : List Bytes) :
    Decidable (Accepted parseUrl pieces) :=
  List.decidableBAll _ _

/-- The path bytes reported for one piece. -/
def pathOf (parseUrl : Bytes → Option UrlFields) (p : Bytes) : Bytes :=
  ((parseUrl p).bind UrlFields.path).getD []

/-- The query bytes reported for one piece. -/
def queryOf (parseUrl : Bytes → Option UrlFields) (p : Bytes) : Bytes :=
  ((parseUrl p).bind UrlFields.query).getD []

/-- The pieces fall where each of them reads as a target and only the last one may
contain the question mark. -/
def SafelyCut : List Bytes → Prop
  | [] => True
  | [p] => isRooted p
  | p :: ps => isRooted p ∧ 63 ∉ p ∧ SafelyCut ps

section Callbacks

variable {State : Type} {parseUrl : Bytes → Option UrlFields} {pieces : List Bytes}

namespace Connection

/-- The connection after the pieces of a target have been accepted. -/
def withTarget (c : Connection State) (url query : Bytes) : Connection State :=
  { c with request := { c.request with url := c.request.url ++ url, query := c.request.query ++ query } }

theorem withTarget_nil (c : Connection State) : c.withTarget [] [] = c := by
  simp [withTarget]

theorem withTarget_withTarget (c : Connection State) (u u' q q' : Bytes) :
    (c.withTarget u q).withTarget u' q' = c.withTarget (u ++ u') (q ++ q') := by
  simp [withTarget]

theorem callback_url_accepted (c : Connection State) {p : Bytes} (h : (parseUrl p).isSome) :
    c.callback parseUrl (.url p) =
      .ok (c.withTarget (pathOf parseUrl p) (queryOf parseUrl p), 0) := by
  obtain ⟨f, hf⟩ := Option.isSome_iff_exists.mp h
  simp [callback, onUrl, withTarget, pathOf, queryOf, hf]

theorem callback_url_refused (c : Connection State) {p : Bytes} (h : ¬ (parseUrl p).isSome) :
    c.callback parseUrl (.url p) = .ok (c, 1) := by
  have hf : parseUrl p = none := Option.not_isSome_iff_eq_none.mp h
  simp [callback, onUrl, hf]

/-- Accepted pieces each add what was reported for them. -/
theorem urls_delivers (c : Connection State) (h : Accepted parseUrl pieces) :
    Delivers parseUrl c (pieces.map .url)
      (c.withTarget (pieces.flatMap (pathOf parseUrl)) (pieces.flatMap (queryOf parseUrl))) := by
  induction pieces generalizing c with
  | nil =>
    rw [List.flatMap_nil, List.flatMap_nil, withTarget_nil]
    exact .refl
  | cons p ps ih =>
    obtain ⟨hp, hps⟩ := List.forall_mem_cons.mp h
    have hrest := ih (c.withTarget (pathOf parseUrl p) (queryOf parseUrl p)) hps
    rw [withTarget_withTarget] at hrest
    exact .cons (callback_url_accepted c hp) hrest

/-- The first piece that is not accepted ends the sequence. -/
theorem urls_refused (c : Connection State) (h : ¬ Accepted parseUrl pieces) :
    (c.deliver parseUrl (pieces.map .url)).stop = .refused := by
  induction pieces generalizing c with
  | nil => exact absurd (fun p hp => absurd hp List.not_mem_nil) h
  | cons p ps ih =>
    rw [List.map_cons]
    by_cases hp : (parseUrl p).isSome
    · rw [deliver_cons_ok (callback_url_accepted c hp)]
      exact ih _ (fun hps => h (List.forall_mem_cons.mpr ⟨hp, hps⟩))
    · rw [deliver_cons_refused (callback_url_refused c hp) Int.one_ne_zero]

theorem urls_finished_iff (c : Connection State) :
    (c.deliver parseUrl (pieces.map .url)).stop = .finished ↔ Accepted parseUrl pieces := by
  by_cases h : Accepted parseUrl pieces
  · exact iff_of_true (congrArg Delivery.stop (urls_delivers c h)) h
  · refine iff_of_false ?_ h
    rw [urls_refused c h]
    exact Stop.noConfusion

end Connection

end Callbacks

/-! ## Paths and queries of concatenations -/

theorem pathPart_cons (b : UInt8) (s : Bytes) :
    pathPart (b :: s) = if b = 63 then [] else b :: pathPart s := by
  unfold pathPart
  by_cases hb : b = 63 <;> simp [hb]

theorem queryPart_cons (b : UInt8) (s : Bytes) :
    queryPart (b :: s) = if b = 63 then s else queryPart s := by
  unfold queryPart
  by_cases hb : b = 63 <;> simp [hb]

theorem pathPart_append (s t : Bytes) :
    pathPart (s ++ t) = if 63 ∈ s then pathPart s else s ++ pathPart t := by
  induction s with
  | nil => rfl
  | cons b s ih =>
    rw [List.cons_append, pathPart_cons, pathPart_cons, ih]
    by_cases hb : b = 63
    · simp [hb]
    · have hb' : ¬ 63 = b := fun h => hb h.symm
      simp only [hb, if_false, List.mem_cons, hb', false_or]
      split <;> rfl

theorem queryPart_append (s t : Bytes) :
    queryPart (s ++ t) = if 63 ∈ s then queryPart s ++ t else queryPart t := by
  induction s with
  | nil => rfl
  | cons b s ih =>
    rw [List.cons_append, queryPart_cons, queryPart_cons, ih]
    by_cases hb : b = 63
    · simp [hb]
    · have hb' : ¬ 63 = b := fun h => hb h.symm
      simp only [hb, if_false, List.mem_cons, hb', false_or]

theorem pathPart_of_unmarked {s : Bytes} (h : 63 ∉ s) : pathPart s = s := by
  have happ := pathPart_append s []
  rw [if_neg h, List.append_nil] at happ
  rw [happ]
  exact List.append_nil s

theorem queryPart_of_unmarked {s : Bytes} (h : 63 ∉ s) : queryPart s = [] := by
  have happ := queryPart_append s []
  rwa [if_neg h, List.append_nil] at happ

/-- The path and the query leave out the question mark and nothing else. -/
theorem length_pathPart_add_queryPart (s : Bytes) :
    (pathPart s).length + (queryPart s).length + (if 63 ∈ s then 1 else 0) = s.length := by
  induction s with
  | nil => rfl
  | cons b s ih =>
    rw [pathPart_cons, queryPart_cons, List.length_cons]
    by_cases hb : b = 63
    · simp [hb]
    · have hb' : ¬ 63 = b := fun h => hb h.symm
      simp only [hb, if_false, List.mem_cons, hb', false_or, List.length_cons]
      omega

theorem pathPart_ne_nil {s : Bytes} (h : isRooted s) : pathPart s ≠ [] := by
  cases s with
  | nil => cases h
  | cons b s =>
    have hb : b ≠ 63 := by
      rintro rfl
      exact Bool.noConfusion h
    rw [pathPart_cons, if_neg hb]
    exact List.cons_ne_nil _ _

/-! ## The cuts that give the whole target -/

section Cuts

variable {parseUrl : Bytes → Option UrlFields} {pieces : List Bytes} {p : Bytes}

theorem ReadsTargets.pathOf_rooted (h : ReadsTargets parseUrl) (hr : isRooted p)
    (hp : Printable p) : pathOf parseUrl p = pathPart p := by
  simp [pathOf, h.rooted p hr hp]

theorem ReadsTargets.queryOf_rooted (h : ReadsTargets parseUrl) (hr : isRooted p)
    (hp : Printable p) : queryOf parseUrl p = queryPart p := by
  unfold queryOf
  rw [h.rooted p hr hp, Option.bind_some]
  by_cases hq : queryPart p = [] <;> simp [hq]

theorem ReadsTargets.absolute_short (h : ReadsTargets parseUrl) (hr : isRooted p = false)
    (ha : (parseUrl p).isSome) :
    (pathOf parseUrl p).length + (queryOf parseUrl p).length + 1 < p.length := by
  obtain ⟨f, hf⟩ := Option.isSome_iff_exists.mp ha
  have hlen := h.absolute p f hr hf
  simpa [pathOf, queryOf, hf] using hlen

/-- No piece reports more than its own bytes, and a question mark is never reported. -/
theorem ReadsTargets.length_piece_le (h : ReadsTargets parseUrl) (hp : Printable p)
    (ha : (parseUrl p).isSome) :
    (pathOf parseUrl p).length + (queryOf parseUrl p).length + (if 63 ∈ p then 1 else 0) ≤
      p.length := by
  cases hr : isRooted p with
  | true =>
    rw [h.pathOf_rooted hr hp, h.queryOf_rooted hr hp]
    exact Nat.le_of_eq (length_pathPart_add_queryPart p)
  | false =>
    have hlen := h.absolute_short hr ha
    split <;> omega

theorem ReadsTargets.length_pieces_le (h : ReadsTargets parseUrl)
    (hp : ∀ p ∈ pieces, Printable p) (ha : Accepted parseUrl pieces) :
    (pieces.flatMap (pathOf parseUrl)).length + (pieces.flatMap (queryOf parseUrl)).length +
      (if 63 ∈ pieces.flatten then 1 else 0) ≤ pieces.flatten.length := by
  induction pieces with
  | nil => simp
  | cons p ps ih =>
    rw [List.forall_mem_cons] at hp
    obtain ⟨hap, haps⟩ := List.forall_mem_cons.mp ha
    have h1 := h.length_piece_le hp.1 hap
    have h2 := ih hp.2 haps
    simp only [List.flatMap_cons, List.flatten_cons, List.length_append, List.mem_append]
    by_cases hm : 63 ∈ p
    · simp only [hm, true_or, if_true] at h1 ⊢
      omega
    · simp only [hm, false_or, if_false] at h1 ⊢
      omega

/-- Pieces that only ever report query bytes, and all of them, are no pieces at all. -/
theorem ReadsTargets.eq_nil_of_query_only (h : ReadsTargets parseUrl)
    (hp : ∀ p ∈ pieces, Printable p) (hne : ∀ p ∈ pieces, p ≠ []) (ha : Accepted parseUrl pieces)
    (hpath : pieces.flatMap (pathOf parseUrl) = [])
    (hquery : pieces.flatMap (queryOf parseUrl) = pieces.flatten) : pieces = [] := by
  cases pieces with
  | nil => rfl
  | cons p ps =>
    exfalso
    rw [List.forall_mem_cons] at hp
    obtain ⟨hap, haps⟩ := List.forall_mem_cons.mp ha
    rw [List.flatMap_cons, List.append_eq_nil_iff] at hpath
    cases hr : isRooted p with
    | true =>
      rw [h.pathOf_rooted hr hp.1] at hpath
      exact pathPart_ne_nil hr hpath.1
    | false =>
      have h1 := h.absolute_short hr hap
      have h2 := h.length_pieces_le hp.2 haps
      have hlen := congrArg List.length hquery
      rw [List.flatMap_cons, List.flatten_cons, List.length_append, List.length_append] at hlen
      omega

/-- A safe cut is accepted and its pieces add up to the whole target. -/
theorem ReadsTargets.whole_of_safelyCut (h : ReadsTargets parseUrl)
    (hp : ∀ p ∈ pieces, Printable p) (hs : SafelyCut pieces) :
    Accepted parseUrl pieces ∧ pieces.flatMap (pathOf parseUrl) = pathPart pieces.flatten ∧
      pieces.flatMap (queryOf parseUrl) = queryPart pieces.flatten := by
  have hone : ∀ p, Printable p → isRooted p → (parseUrl p).isSome := by
    intro p hp hr
    rw [h.rooted p hr hp]
    rfl
  induction pieces with
  | nil => exact ⟨fun p hp => absurd hp List.not_mem_nil, rfl, rfl⟩
  | cons p ps ih =>
    rw [List.forall_mem_cons] at hp
    cases ps with
    | nil =>
      refine ⟨List.forall_mem_cons.mpr ⟨hone p hp.1 hs, List.forall_mem_nil _⟩, ?_, ?_⟩
      · simp [h.pathOf_rooted hs hp.1]
      · simp [h.queryOf_rooted hs hp.1]
    | cons q qs =>
      obtain ⟨hr, hm, hs⟩ := hs
      obtain ⟨ha, hpath, hquery⟩ := ih hp.2 hs
      have hflat : (p :: q :: qs).flatten = p ++ (q :: qs).flatten := List.flatten_cons
      refine ⟨List.forall_mem_cons.mpr ⟨hone p hp.1 hr, ha⟩, ?_, ?_⟩
      · rw [List.flatMap_cons, hpath, h.pathOf_rooted hr hp.1, pathPart_of_unmarked hm,
          hflat, pathPart_append p, if_neg hm]
      · rw [List.flatMap_cons, hquery, h.queryOf_rooted hr hp.1, queryPart_of_unmarked hm,
          hflat, queryPart_append p, if_neg hm, List.nil_append]

/-- Accepted pieces add up to the whole target only when it was cut safely. -/
theorem ReadsTargets.safelyCut_of_whole (h : ReadsTargets parseUrl)
    (hp : ∀ p ∈ pieces, Printable p) (hne : ∀ p ∈ pieces, p ≠ []) (ha : Accepted parseUrl pieces)
    (hpath : pieces.flatMap (pathOf parseUrl) = pathPart pieces.flatten)
    (hquery : pieces.flatMap (queryOf parseUrl) = queryPart pieces.flatten) :
    SafelyCut pieces := by
  induction pieces with
  | nil => trivial
  | cons p ps ih =>
    rw [List.forall_mem_cons] at hp hne
    obtain ⟨hap, haps⟩ := List.forall_mem_cons.mp ha
    rw [List.flatMap_cons, List.flatten_cons] at hpath hquery
    cases hr : isRooted p with
    | false =>
      -- the scheme of an absolute piece is missing from the sum
      exfalso
      have h1 := h.absolute_short hr hap
      have h2 := h.length_pieces_le hp.2 haps
      have h3 := length_pathPart_add_queryPart (p ++ ps.flatten)
      rw [← hpath, ← hquery] at h3
      simp only [List.length_append] at h3
      split at h3 <;> omega
    | true =>
      rw [h.pathOf_rooted hr hp.1, pathPart_append] at hpath
      rw [h.queryOf_rooted hr hp.1, queryPart_append] at hquery
      by_cases hm : 63 ∈ p
      · rw [if_pos hm] at hpath hquery
        have hnil := h.eq_nil_of_query_only hp.2 hne.2 haps
          (List.append_cancel_left (hpath.trans (List.append_nil _).symm))
          (List.append_cancel_left hquery)
        subst hnil
        exact hr
      · rw [if_neg hm, pathPart_of_unmarked hm] at hpath
        rw [if_neg hm, queryPart_of_unmarked hm, List.nil_append] at hquery
        have hps := ih hp.2 hne.2 haps (List.append_cancel_left hpath) hquery
        cases ps with
        | nil => exact hr
        | cons q qs => exact ⟨hr, hm, hps⟩

/-- `ps` cuts `t` into non-empty pieces. -/
structure CutOf (t : Bytes) (ps : List Bytes) : Prop where
  whole : ps.flatten = t
  nonempty : ∀ p ∈ ps, p ≠ []

theorem CutOf.printable {t : Bytes} (h : CutOf t pieces) (ht : Target t) :
    ∀ p ∈ pieces, Printable p := by
  intro p hp b hb
  apply ht.2
  rw [← h.whole]
  exact List.mem_flatten_of_mem hp hb

/-- Two runs of `on_url` over the target `t` end alike: both are accepted or neither is,
and an accepted one has the path and the query of the whole target. -/
def SameTarget {S T : Type} (t : Bytes) (d : Connection.Delivery S) (e : Connection.Delivery T) :
    Prop :=
  (d.stop = .finished ↔ e.stop = .finished) ∧
    (d.stop = .finished →
      (d.conn.request.url = pathPart t ∧ d.conn.request.query = queryPart t) ∧
      (e.conn.request.url = pathPart t ∧ e.conn.request.query = queryPart t))

/-- An accepted run over the pieces has the whole target exactly when they are a safe cut. -/
theorem ReadsTargets.whole_iff {State : Type} (h : ReadsTargets parseUrl) {t : Bytes}
    (ht : Target t) (hc : CutOf t pieces) (ha : Accepted parseUrl pieces) (c : Connection State) :
    ((c.onMessageBegin.deliver parseUrl (pieces.map .url)).conn.request.url = pathPart t ∧
      (c.onMessageBegin.deliver parseUrl (pieces.map .url)).conn.request.query = queryPart t) ↔
      SafelyCut pieces := by
  have hd := congrArg Connection.Delivery.conn (Connection.urls_delivers c.onMessageBegin ha)
  rw [hd, ← hc.whole]
  change ([] ++ _ = _ ∧ [] ++ _ = _) ↔ _
  rw [List.nil_append, List.nil_append]
  constructor
  · rintro ⟨hpath, hquery⟩
    exact h.safelyCut_of_whole (hc.printable ht) hc.nonempty ha hpath hquery
  · exact fun hs => (h.whole_of_safelyCut (hc.printable ht) hs).2

/-- Two ways of cutting a target into pieces give the same acceptance, path and query
exactly when both are safe or both contain a piece that is refused. -/
theorem sameTarget_iff {S T : Type} (h : ReadsTargets parseUrl) {t : Bytes} (ht : Target t)
    {ps qs : List Bytes} (hps : CutOf t ps) (hqs : CutOf t qs) (c : Connection S)
    (d : Connection T) :
    SameTarget t (c.onMessageBegin.deliver parseUrl (ps.map .url))
        (d.onMessageBegin.deliver parseUrl (qs.map .url)) ↔
      (SafelyCut ps ∧ SafelyCut qs) ∨ (¬ Accepted parseUrl ps ∧ ¬ Accepted parseUrl qs) := by
  have hsafe {us : List Bytes} (hus : CutOf t us) (hs : SafelyCut us) : Accepted parseUrl us :=
    (h.whole_of_safelyCut (hus.printable ht) hs).1
  unfold SameTarget
  rw [Connection.urls_finished_iff, Connection.urls_finished_iff]
  by_cases ha : Accepted parseUrl ps
  · by_cases hb : Accepted parseUrl qs
    · rw [h.whole_iff ht hps ha c, h.whole_iff ht hqs hb d]
      simp [ha, hb]
    · have hn : ¬ SafelyCut qs := fun hs => hb (hsafe hqs hs)
      simp [ha, hb, hn]
  · have hn : ¬ SafelyCut ps := fun hs => ha (hsafe hps hs)
    simp [ha, hn]

/-- `http_parser_parse_url` on the strings that begin with a path. -/
def readRooted (s : Bytes) : Option UrlFields :=
  if isRooted s then
    some ⟨some (pathPart s), if queryPart s = [] then none else some (queryPart s)⟩
  else none

theorem readRooted_readsTargets : ReadsTargets readRooted where
  rooted s hr _ := by simp [readRooted, hr]
  absolute s f hr hf := by simp [readRooted, hr] at hf

theorem sameTarget_iff_whole_and_split :
    SameTarget (ascii "/a/b?c")
        ((Connection.new [] .zero ()).onMessageBegin.deliver readRooted ([ascii "/a/b?c"].map .url))
        ((Connection.new [] .zero ()).onMessageBegin.deliver readRooted
          ([ascii "/a", ascii "/b?c"].map .url)) ↔
      (SafelyCut [ascii "/a/b?c"] ∧ SafelyCut [ascii "/a", ascii "/b?c"]) ∨
        (¬ Accepted readRooted [ascii "/a/b?c"] ∧
          ¬ Accepted readRooted [ascii "/a", ascii "/b?c"]) :=
  sameTarget_iff readRooted_readsTargets (by decide) ⟨by decide, by decide⟩ ⟨by decide, by decide⟩
    _ _

/-- `/path` in one piece is accepted, cut before `th` it is refused. -/
theorem not_sameTarget_path :
    ¬ SameTarget (ascii "/path")
        ((Connection.new [] .zero ()).onMessageBegin.deliver readRooted ([ascii "/path"].map .url))
        ((Connection.new [] .zero ()).onMessageBegin.deliver readRooted
          ([ascii "/pa", ascii "th"].map .url)) := by
  rintro ⟨hiff, -⟩
  rw [Connection.urls_finished_iff, Connection.urls_finished_iff] at hiff
  have hsplit := hiff.mp (List.forall_mem_singleton.mpr rfl) (ascii "th") (by decide)
  exact Bool.noConfusion hsplit

end Cuts

end CsiHttp.Server

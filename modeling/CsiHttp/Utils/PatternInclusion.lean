import CsiHttp.Utils.PatternLanguage

/-!
# Inclusion of patterns

A pattern that matches the text of another one accepts every url that the other accepts. The
converse needs a url that tells the two apart: the text of the other pattern with each `+` filled
in by a segment that the first pattern does not have in that place.
-/
namespace CsiHttp

open Lib.Text

/-- The segments of a string have no separator in them. -/
theorem not_mem_of_mem_split {str s : Bytes} (h : s ∈ split str) : (47 : UInt8) ∉ s := by
  unfold split at h
  induction str generalizing s with
  | nil =>
    rw [List.splitOn_nil, List.mem_singleton] at h
    rw [h]
    exact List.not_mem_nil
  | cons b str ih =>
    rw [List.splitOn_cons_eq_if_modifyHead] at h
    by_cases hb : (b == 47) = true
    · rw [if_pos hb] at h
      cases List.mem_cons.mp h with
      | inl hnil =>
        rw [hnil]
        exact List.not_mem_nil
      | inr hrest => exact ih hrest
    · rw [if_neg hb] at h
      cases hparts : str.splitOn 47 with
      | nil => exact absurd hparts (List.splitOn_ne_nil 47 str)
      | cons t ts =>
        rw [hparts, List.modifyHead_cons] at h
        rw [hparts] at ih
        cases List.mem_cons.mp h with
        | inl hhead =>
          rw [hhead, List.mem_cons]
          intro hmem
          cases hmem with
          | inl heq => exact hb (beq_iff_eq.mpr heq.symm)
          | inr htail => exact ih List.mem_cons_self htail
        | inr hrest => exact ih (List.mem_cons_of_mem t hrest)

/-- Segments without a separator are those of the string that they join to. -/
theorem split_intercalate {parts : List Bytes} (h : ∀ s ∈ parts, (47 : UInt8) ∉ s)
    (hne : parts ≠ []) : split ([47].intercalate parts) = parts :=
  List.splitOn_intercalate 47 h hne

namespace UriPattern

/-- The first pattern accepts every url that the second one accepts. -/
def Covers (p q : UriPattern) : Prop :=
  ∀ u : Bytes, q.accepts (split u) = true → p.accepts (split u) = true

/-! ## Segments -/

/-- Taken as a url, a pattern accepts its own text. -/
theorem matches_self {ps : List Bytes} : Matches ps ps := by
  induction ps with
  | nil => exact .done
  | cons p ps ih =>
    by_cases hfinal : p = hash ∧ ps = []
    · rw [hfinal.1, hfinal.2]
      exact .catchAll hash []
    · exact (matches_cons hfinal p ps).mpr ⟨Or.inr rfl, ih⟩

/-- What matches the text of a pattern matches whatever the pattern matches. -/
theorem Matches.trans {ps qs xs : List Bytes} (h : Matches ps qs)
    (hlast : qs.getLast? ≠ some hash) (hx : Matches qs xs) : Matches ps xs := by
  induction h generalizing xs with
  | done => exact hx
  | catchAll q qs =>
    cases xs with
    | nil => exact absurd hx (not_matches_nil q qs)
    | cons x xs => exact .catchAll x xs
  | any q _ ih =>
    obtain ⟨hfinal, hlast'⟩ := getLast?_tail hlast
    cases xs with
    | nil => exact absurd hx (not_matches_nil q _)
    | cons x xs => exact .any x (ih hlast' ((matches_cons hfinal x xs).mp hx).2)
  | same hplus hfinal _ ih =>
    obtain ⟨hfinal', hlast'⟩ := getLast?_tail hlast
    cases xs with
    | nil => exact absurd hx (not_matches_nil _ _)
    | cons x xs =>
      obtain ⟨hs, hrest⟩ := (matches_cons hfinal' x xs).mp hx
      rw [← hs.resolve_left hplus]
      exact .same hplus hfinal (ih hlast' hrest)

/-- A segment other than the given one. -/
def other (s : Bytes) : Bytes := if s = [] then hash else []

theorem other_ne (s : Bytes) : s ≠ other s := by
  unfold other
  by_cases hs : s = []
  · rw [if_pos hs, hs]
    decide
  · rw [if_neg hs]
    exact hs

/-- The segments of a url in the language of `qs` that a pattern `ps` accepts only if it matches
the text `qs`. -/
def separating : List Bytes → List Bytes → List Bytes
  | _, [] => []
  | ps, q :: qs => (if q = plus then other (ps.headD []) else q) :: separating ps.tail qs

theorem matches_separating {qs : List Bytes} (h : qs.getLast? ≠ some hash) (ps : List Bytes) :
    Matches qs (separating ps qs) := by
  induction qs generalizing ps with
  | nil => exact .done
  | cons q qs ih =>
    obtain ⟨hfinal, hlast⟩ := getLast?_tail h
    refine (matches_cons hfinal _ _).mpr ⟨?_, ih hlast ps.tail⟩
    by_cases hq : q = plus
    · exact Or.inl hq
    · rw [if_neg hq]
      exact Or.inr rfl

theorem matches_of_separating {ps qs : List Bytes} (h : Matches ps (separating ps qs)) :
    Matches ps qs := by
  induction qs generalizing ps with
  | nil => exact h
  | cons q qs ih =>
    cases ps with
    | nil => cases h
    | cons p ps =>
      by_cases hfinal : p = hash ∧ ps = []
      · rw [hfinal.1, hfinal.2]
        exact .catchAll q qs
      · obtain ⟨hp, hrest⟩ := (matches_cons hfinal _ _).mp h
        refine (matches_cons hfinal q qs).mpr ⟨?_, ih hrest⟩
        cases hp with
        | inl hplus => exact Or.inl hplus
        | inr hsame =>
          by_cases hq : q = plus
          · -- here the url has a segment that the pattern has not
            rw [if_pos hq] at hsame
            exact absurd hsame (other_ne p)
          · rw [if_neg hq] at hsame
            exact Or.inr hsame

theorem not_mem_separating {ps qs : List Bytes} (h : ∀ q ∈ qs, (47 : UInt8) ∉ q) :
    ∀ s ∈ separating ps qs, (47 : UInt8) ∉ s := by
  induction qs generalizing ps with
  | nil => exact fun s hs => absurd hs List.not_mem_nil
  | cons q qs ih =>
    obtain ⟨hq, hqs⟩ := List.forall_mem_cons.mp h
    refine List.forall_mem_cons.mpr ⟨?_, ih hqs⟩
    by_cases hplus : q = plus
    · rw [if_pos hplus, other]
      by_cases hnil : ps.headD [] = []
      · rw [if_pos hnil]
        decide
      · rw [if_neg hnil]
        exact List.not_mem_nil
    · rwa [if_neg hplus]

theorem separating_ne_nil {qs : List Bytes} (h : qs ≠ []) (ps : List Bytes) :
    separating ps qs ≠ [] := by
  cases qs with
  | nil => exact absurd rfl h
  | cons q qs => exact List.cons_ne_nil _ _

/-! ## Patterns -/

/-- A pattern covers another one, whose last segment is not `#`, exactly if it matches its
text. -/
theorem covers_iff {p q : Bytes} (h : (split q).getLast? ≠ some hash) :
    (new p).accepts (split q) = true ↔ (new p).Covers (new q) := by
  constructor
  · intro hmatch u hu
    rw [accepts_iff] at hmatch hu ⊢
    exact hmatch.trans h hu
  · intro hcovers
    have hsplit : split ([47].intercalate (separating (split p) (split q)))
        = separating (split p) (split q) :=
      split_intercalate (not_mem_separating fun s hs => not_mem_of_mem_split hs)
        (separating_ne_nil (List.splitOn_ne_nil 47 q) _)
    have hu := hcovers ([47].intercalate (separating (split p) (split q)))
    rw [hsplit, accepts_iff, accepts_iff] at hu
    rw [accepts_iff]
    exact matches_of_separating (hu (matches_separating h _))

theorem accepts_self (p : Bytes) : (new p).accepts (split p) = true := by
  rw [accepts_iff]
  exact matches_self

end UriPattern

end CsiHttp

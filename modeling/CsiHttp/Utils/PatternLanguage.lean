import CsiHttp.Utils.UriPattern

/-!
# The language of a pattern

What a pattern stands for is a recursion on its segments and those of the url. The code
compares two vectors by length and then by index; both accept the same urls.
-/
namespace CsiHttp.UriPattern

open Lib.Text

/-- The urls that a pattern accepts, as segments. A `#` is the catch-all only at the end. -/
inductive Matches : List Bytes → List Bytes → Prop
  | done : Matches [] []
  | catchAll (x : Bytes) (xs : List Bytes) : Matches [hash] (x :: xs)
  | any {ps xs : List Bytes} (x : Bytes) : Matches ps xs → Matches (plus :: ps) (x :: xs)
  | same {s : Bytes} {ps xs : List Bytes} :
      s ≠ plus → ¬ (s = hash ∧ ps = []) → Matches ps xs → Matches (s :: ps) (s :: xs)

theorem not_matches_nil (p : Bytes) (ps : List Bytes) : ¬ Matches (p :: ps) [] := by
  intro h
  cases h

theorem matches_nil_iff (xs : List Bytes) : Matches [] xs ↔ xs = [] := by
  constructor
  · intro h
    cases h
    rfl
  · intro h
    rw [h]
    exact .done

/-- A segment that is not a final `#` accepts one segment, its own unless it is `+`. -/
theorem matches_cons {p : Bytes} {ps : List Bytes} (h : ¬ (p = hash ∧ ps = []))
    (x : Bytes) (xs : List Bytes) :
    Matches (p :: ps) (x :: xs) ↔ (p = plus ∨ p = x) ∧ Matches ps xs := by
  constructor
  · intro hm
    cases hm with
    | catchAll => exact absurd ⟨rfl, rfl⟩ h
    | any _ hrest => exact ⟨Or.inl rfl, hrest⟩
    | same _ _ hrest => exact ⟨Or.inr rfl, hrest⟩
  · intro hand
    obtain ⟨hp, hrest⟩ := hand
    by_cases hplus : p = plus
    · rw [hplus]
      exact .any x hrest
    · rw [← hp.resolve_left hplus]
      exact .same hplus h hrest

/-! ## The loop -/

/-- The loop at the index `i + 1` is the loop at `i` over the vectors without their heads. -/
theorem compareParts_succ (p x : Bytes) (own parts : List Bytes) (k i : Nat) :
    compareParts (p :: own) (x :: parts) k (i + 1) = compareParts own parts k i := by
  induction k generalizing i with
  | zero => rfl
  | succ k ih =>
    rw [compareParts, compareParts, List.getElem?_cons_succ, List.getElem?_cons_succ, ih]

theorem compareParts_cons (p x : Bytes) (own parts : List Bytes) :
    compareParts (p :: own) (x :: parts) (p :: own).length 0 =
      if p = plus ∨ p = x then compareParts own parts own.length 0 else some false := by
  rw [List.length_cons, compareParts, compareParts_succ]
  simp only [List.getElem?_cons_zero, Option.bind_some]
  by_cases hplus : p = plus
  · simp only [hplus, if_true, true_or]
  · simp only [hplus, if_false, false_or]

/-- With a catch-all, the loop and the length test are the language of the pattern. -/
theorem matches_hash_iff (own xs : List Bytes) :
    Matches (own ++ [hash]) xs ↔
      own.length < xs.length ∧ compareParts own xs own.length 0 = some true := by
  induction own generalizing xs with
  | nil =>
    cases xs with
    | nil => simp [not_matches_nil]
    | cons x xs => simp [Matches.catchAll, compareParts]
  | cons p own ih =>
    cases xs with
    | nil => simp [not_matches_nil]
    | cons x xs =>
      have hfinal : ¬ (p = hash ∧ own ++ [hash] = []) := by simp
      rw [List.cons_append, matches_cons hfinal, ih, compareParts_cons]
      by_cases hp : p = plus ∨ p = x
      · simp [hp]
      · simp [hp]

theorem getLast?_tail {q : Bytes} {qs : List Bytes} (h : (q :: qs).getLast? ≠ some hash) :
    ¬ (q = hash ∧ qs = []) ∧ qs.getLast? ≠ some hash := by
  constructor
  · intro hand
    obtain ⟨hq, hqs⟩ := hand
    rw [hq, hqs] at h
    exact h rfl
  · cases qs with
    | nil => simp
    | cons r qs => rwa [List.getLast?_cons_cons] at h

/-- Without one, the lengths have to be the same. -/
theorem matches_literal_iff {own : List Bytes} (h : own.getLast? ≠ some hash) (xs : List Bytes) :
    Matches own xs ↔
      own.length = xs.length ∧ compareParts own xs own.length 0 = some true := by
  induction own generalizing xs with
  | nil =>
    rw [matches_nil_iff]
    cases xs <;> simp [compareParts]
  | cons p own ih =>
    cases xs with
    | nil => simp [not_matches_nil]
    | cons x xs =>
      obtain ⟨hfinal, hlast⟩ := getLast?_tail h
      rw [matches_cons hfinal, ih hlast, compareParts_cons]
      by_cases hp : p = plus ∨ p = x
      · simp [hp]
      · simp [hp]

/-! ## `match` -/

/-- The three length tests, for a pattern without the catch-all. -/
theorem matchParts_literal (own parts : List Bytes) :
    (UriPattern.mk own false).matchParts parts = some true ↔
      own.length = parts.length ∧ compareParts own parts own.length 0 = some true := by
  unfold matchParts
  by_cases hlen : own.length = parts.length
  · simp only [hlen, gt_iff_lt, Nat.lt_irrefl, if_false, Bool.not_false, bne_self_eq_false,
      Bool.and_false, Bool.false_eq_true, true_and, beq_self_eq_true, Bool.true_or, if_true]
    cases hloop : compareParts own parts parts.length 0 with
    | none => simp
    | some equal => cases equal <;> simp
  · by_cases hgt : own.length > parts.length
    · simp [hgt, hlen]
    · simp [hgt, hlen]

/-- The three length tests, for a pattern with the catch-all. -/
theorem matchParts_catchAll (own parts : List Bytes) :
    (UriPattern.mk own true).matchParts parts = some true ↔
      own.length < parts.length ∧ compareParts own parts own.length 0 = some true := by
  unfold matchParts
  by_cases hlen : own.length < parts.length
  · have hgt : ¬ own.length > parts.length := by omega
    have hge : ¬ own.length ≥ parts.length := by omega
    simp only [hgt, hge, hlen, if_false, Bool.not_true, Bool.false_and, Bool.false_eq_true,
      true_and, Bool.or_true, if_true]
    cases hloop : compareParts own parts own.length 0 with
    | none => simp
    | some equal => cases equal <;> simp
  · have hge : own.length ≥ parts.length := by omega
    simp [hlen, hge]

/-- The constructor keeps the segments, the last of them apart when it is a `#`. -/
theorem new_eq (str : Bytes) :
    (split str = (new str).parts ++ [hash] ∧ (new str).catchAll = true) ∨
      (split str = (new str).parts ∧ (split str).getLast? ≠ some hash ∧
        (new str).catchAll = false) := by
  cases hlast : (split str).getLast? with
  | none =>
    refine Or.inr ⟨?_, by simp, ?_⟩
    · simp [new, hlast]
    · simp [new, hlast]
  | some last =>
    by_cases hhash : last = hash
    · refine Or.inl ⟨?_, by simp [new, hlast, hhash]⟩
      rw [hhash] at hlast
      obtain ⟨ys, hys⟩ := List.getLast?_eq_some_iff.mp hlast
      simp [new, hys]
    · refine Or.inr ⟨by simp [new, hlast, hhash], ?_, by simp [new, hlast, hhash]⟩
      intro h
      exact hhash (Option.some.inj h)

/-- A pattern accepts exactly its language. -/
theorem matchParts_iff (str : Bytes) (parts : List Bytes) :
    (new str).matchParts parts = some true ↔ Matches (split str) parts := by
  obtain ⟨hparts, hcatch⟩ | ⟨hparts, hlast, hcatch⟩ := new_eq str
  · have hnew : new str = ⟨(new str).parts, true⟩ := by rw [← hcatch]
    rw [hnew, matchParts_catchAll, hparts, matches_hash_iff]
  · have hnew : new str = ⟨(new str).parts, false⟩ := by rw [← hcatch]
    rw [hnew, matchParts_literal, matches_literal_iff hlast, hparts]

theorem accepts_iff (str : Bytes) (parts : List Bytes) :
    (new str).accepts parts = true ↔ Matches (split str) parts := by
  rw [← matchParts_iff, accepts]
  constructor
  · intro h
    rw [← h, Option.some_get]
  · intro h
    exact Option.get_of_eq_some _ h

/-- A pattern of one segment without a `/` is that segment. -/
theorem eq_of_split_singleton {str s : Bytes} (h : split str = [s]) : str = s := by
  have hjoin : [47].intercalate (split str) = str := List.intercalate_splitOn 47
  rw [← hjoin, h, List.intercalate_singleton]

/-- Taken as a url, `#` is a segment like any other: two patterns accept it. -/
theorem accepts_hash_iff (str : Bytes) :
    (new str).accepts [hash] = true ↔ str = hash ∨ str = plus := by
  rw [accepts_iff]
  constructor
  · intro h
    generalize hparts : split str = parts at h
    cases h with
    | catchAll => exact Or.inl (eq_of_split_singleton hparts)
    | any _ hrest =>
      cases hrest
      exact Or.inr (eq_of_split_singleton hparts)
    | same _ hfinal hrest =>
      cases hrest
      exact absurd ⟨rfl, rfl⟩ hfinal
  · intro h
    cases h with
    | inl h =>
      rw [h, show split hash = [hash] from by decide]
      exact .catchAll hash []
    | inr h =>
      rw [h, show split plus = [plus] from by decide]
      exact .any hash .done

/-- URL patterns accept exactly their documented language, and `match` neither leaves a vector
nor fails its assertion. -/
theorem match_language (p u : Bytes) :
    ((new p).matchParts (split u)).isSome ∧
      ((new p).matchParts (split u) = some true ↔ Matches (split p) (split u)) :=
  ⟨matchParts_isSome _ _, matchParts_iff p (split u)⟩

end CsiHttp.UriPattern

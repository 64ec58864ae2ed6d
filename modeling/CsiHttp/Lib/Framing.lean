import Mathlib.Algebra.BigOperators.Group.List.Basic
import Mathlib.Algebra.Ring.Nat
import Mathlib.Data.List.Infix

/-!
# Records on a stream that is read in portions

A stream carries records one after the other; `size` is the length of a record on it.
The stream is read in portions that need not respect the records. `whole rs n` are the
records that the first `n` units contain in whole, and `Aligned` says that each of them
ends where a portion ends.
-/
namespace CsiHttp.Lib.Framing

universe u
variable {R : Type u} {size : R → Nat} {rs done left : List R} {r : R} {n x : Nat}

def total (size : R → Nat) (rs : List R) : Nat := (rs.map size).sum

def whole (size : R → Nat) : List R → Nat → List R
  | [], _ => []
  | r :: rs, n => if size r ≤ n then r :: whole size rs (n - size r) else []

/-- The other records; the first of them may have begun. -/
def rest (size : R → Nat) : List R → Nat → List R
  | [], _ => []
  | r :: rs, n => if size r ≤ n then rest size rs (n - size r) else r :: rs

@[simp] theorem total_nil : total size [] = 0 := rfl

theorem total_cons (r : R) (rs : List R) : total size (r :: rs) = size r + total size rs := by
  simp [total]

@[simp] theorem total_append (a b : List R) : total size (a ++ b) = total size a + total size b := by
  simp [total]

@[simp] theorem total_singleton (r : R) : total size [r] = size r := by simp [total]

theorem whole_eq_of_split (size : R → Nat) (hrs : rs = done ++ left) (hle : total size done ≤ n)
    (hlt : ∀ r l, left = r :: l → n < total size done + size r) :
    whole size rs n = done ∧ rest size rs n = left := by
  induction done generalizing rs n with
  | nil =>
    obtain rfl : rs = left := hrs
    cases rs with
    | nil => exact ⟨rfl, rfl⟩
    | cons r l =>
      have h := hlt r l rfl
      rw [total_nil, Nat.zero_add] at h
      unfold whole rest
      rw [if_neg (by omega), if_neg (by omega)]
      exact ⟨rfl, rfl⟩
  | cons d done ih =>
    subst hrs
    rw [total_cons] at hle
    simp only [total_cons] at hlt
    obtain ⟨hw, hr⟩ := ih rfl (n := n - size d) (by omega) (fun r l hl => by
      have h := hlt r l hl
      omega)
    rw [List.cons_append]
    unfold whole rest
    rw [if_pos (by omega), if_pos (by omega), hw, hr]
    exact ⟨rfl, rfl⟩

theorem whole_zero (hsize : ∀ r ∈ rs, 0 < size r) : whole size rs 0 = [] := by
  cases rs with
  | nil => rfl
  | cons r l =>
    unfold whole
    rw [if_neg (Nat.not_le.mpr (hsize r List.mem_cons_self))]

theorem whole_append_rest (size : R → Nat) (rs : List R) (n : Nat) : whole size rs n ++ rest size rs n = rs := by
  induction rs generalizing n with
  | nil => rfl
  | cons r rs ih =>
    unfold whole rest
    by_cases h : size r ≤ n
    · rw [if_pos h, if_pos h, List.cons_append, ih]
    · rw [if_neg h, if_neg h, List.nil_append]

theorem total_whole_le (size : R → Nat) (rs : List R) (n : Nat) : total size (whole size rs n) ≤ n := by
  induction rs generalizing n with
  | nil => exact Nat.zero_le n
  | cons r rs ih =>
    unfold whole
    split
    · have h := ih (n - size r)
      rw [total_cons]
      omega
    · exact Nat.zero_le n

theorem lt_of_rest {l : List R} (h : rest size rs n = r :: l) :
    n < total size (whole size rs n) + size r := by
  induction rs generalizing n with
  | nil => cases h
  | cons r' rs ih =>
    unfold rest at h
    unfold whole
    by_cases hle : size r' ≤ n
    · rw [if_pos hle] at h ⊢
      have hlt := ih h
      rw [total_cons]
      omega
    · rw [if_neg hle] at h ⊢
      obtain ⟨rfl, -⟩ := List.cons.inj h
      rw [total_nil]
      omega

/-- The records that `x` more units complete. -/
def completed (size : R → Nat) (rs : List R) (n x : Nat) : List R :=
  whole size (rest size rs n) (n - total size (whole size rs n) + x)

theorem whole_add (size : R → Nat) (rs : List R) (n x : Nat) :
    whole size rs (n + x) = whole size rs n ++ completed size rs n x ∧
      rest size rs (n + x) =
        rest size (rest size rs n) (n - total size (whole size rs n) + x) := by
  have hle := total_whole_le size rs n
  have hle' := total_whole_le size (rest size rs n) (n - total size (whole size rs n) + x)
  unfold completed
  refine whole_eq_of_split size ?_ ?_ (fun r l hl => ?_)
  · rw [List.append_assoc, whole_append_rest, whole_append_rest]
  · rw [total_append]
    omega
  · have hlt := lt_of_rest hl
    rw [total_append]
    omega

/-- A completed record was not complete before. -/
theorem lt_of_completed {l : List R} (h : completed size rs n x = r :: l) :
    n < total size (whole size rs n) + size r := by
  unfold completed at h
  cases hrest : rest size rs n with
  | nil =>
    rw [hrest] at h
    cases h
  | cons r' l' =>
    rw [hrest] at h
    unfold whole at h
    split at h
    · obtain ⟨rfl, -⟩ := List.cons.inj h
      exact lt_of_rest hrest
    · cases h

theorem mem_of_completed (h : r ∈ completed size rs n x) : r ∈ rs := by
  unfold completed at h
  have hrest : r ∈ rest size rs n := by
    rw [← whole_append_rest size (rest size rs n) (n - total size (whole size rs n) + x)]
    exact List.mem_append_left _ h
  rw [← whole_append_rest size rs n]
  exact List.mem_append_right _ hrest

/-- If the first record to be completed takes all that has come, it is the only one. -/
theorem eq_nil_of_completed {l : List R} (hsize : ∀ r ∈ rs, 0 < size r)
    (hnew : completed size rs n x = r :: l)
    (hend : total size (whole size rs n) + size r = n + x) : l = [] := by
  have hle := total_whole_le size rs (n + x)
  rw [(whole_add size rs n x).1, total_append, hnew, total_cons] at hle
  cases l with
  | nil => rfl
  | cons r' l =>
    have hr' : 0 < size r' := by
      have hmem : r' ∈ completed size rs n x := by
        rw [hnew]
        exact List.mem_cons_of_mem _ List.mem_cons_self
      exact hsize r' (mem_of_completed hmem)
    rw [total_cons] at hle
    omega

/-! ## Portions -/

/-- Each record that has arrived in whole ends where one of the portions ends. -/
def Aligned (size : R → Nat) (rs : List R) (portions : List Nat) : Prop :=
  ∀ a r, a ++ [r] <+: whole size rs portions.sum →
    ∃ p, p <+: portions ∧ p.sum = total size (a ++ [r])

/-- The end of a portion is either the end of an earlier one or the new end of the stream. -/
theorem prefix_concat_sum {p portions : List Nat} (h : p <+: portions ++ [x]) :
    p <+: portions ∨ p.sum = portions.sum + x := by
  rcases List.prefix_concat_iff.mp h with rfl | h
  · right
    rw [List.sum_append, List.sum_singleton]
  · exact Or.inl h

theorem sum_le_of_prefix {p portions : List Nat} (h : p <+: portions) : p.sum ≤ portions.sum := by
  obtain ⟨q, rfl⟩ := h
  rw [List.sum_append]
  exact Nat.le_add_right _ _

/-- One more portion keeps the records aligned if it completes none, or just one with its
last unit. -/
theorem aligned_concat (hsize : ∀ r ∈ rs, 0 < size r) (hx : 0 < x) {portions : List Nat} :
    Aligned size rs (portions ++ [x]) ↔ Aligned size rs portions ∧
      (completed size rs portions.sum x = [] ∨ ∃ r, completed size rs portions.sum x = [r] ∧
        total size (whole size rs portions.sum) + size r = portions.sum + x) := by
  have hsum : (portions ++ [x]).sum = portions.sum + x := by
    rw [List.sum_append, List.sum_singleton]
  have hle := total_whole_le size rs portions.sum
  have hadd := (whole_add size rs portions.sum x).1
  unfold Aligned
  rw [hsum, hadd]
  constructor
  · intro h
    refine ⟨fun a r ha => ?_, ?_⟩
    · obtain ⟨p, hp, htot⟩ := h a r (ha.trans (List.prefix_append _ _))
      rcases prefix_concat_sum hp with hp | hp
      · exact ⟨p, hp, htot⟩
      · obtain ⟨b, hb⟩ := ha
        have htotal := congrArg (total size) hb
        rw [total_append] at htotal
        omega
    · cases hnew : completed size rs portions.sum x with
      | nil => exact Or.inl rfl
      | cons r l =>
        have hlt := lt_of_completed hnew
        rw [hnew] at h
        obtain ⟨p, hp, htot⟩ := h (whole size rs portions.sum) r ⟨l, by simp⟩
        rw [total_append, total_singleton] at htot
        have hend : total size (whole size rs portions.sum) + size r = portions.sum + x := by
          rcases prefix_concat_sum hp with hp | hp
          · have := sum_le_of_prefix hp
            omega
          · omega
        obtain rfl := eq_nil_of_completed hsize hnew hend
        exact Or.inr ⟨r, rfl, hend⟩
  · rintro ⟨h, hnew⟩ a r ha
    have hold : a ++ [r] <+: whole size rs portions.sum →
        ∃ p, p <+: portions ++ [x] ∧ p.sum = total size (a ++ [r]) := by
      intro ha
      obtain ⟨p, hp, htot⟩ := h a r ha
      exact ⟨p, hp.trans (List.prefix_append _ _), htot⟩
    rcases hnew with hnew | ⟨r', hnew, hend⟩
    · rw [hnew, List.append_nil] at ha
      exact hold ha
    · rw [hnew] at ha
      rcases List.prefix_concat_iff.mp ha with ha | ha
      · obtain ⟨rfl, hr⟩ := List.append_inj' ha rfl
        obtain rfl := List.singleton_inj.mp hr
        refine ⟨portions ++ [x], List.prefix_rfl, ?_⟩
        rw [total_append, total_singleton, hsum, hend]
      · exact hold ha

/-- Records that are read one by one are aligned. -/
theorem aligned_map (size : R → Nat) (rs : List R) : Aligned size rs (rs.map size) := by
  intro a r ha
  have hp : a ++ [r] <+: rs := ha.trans ⟨_, whole_append_rest size rs (rs.map size).sum⟩
  exact ⟨(a ++ [r]).map size, hp.map size, rfl⟩

end CsiHttp.Lib.Framing

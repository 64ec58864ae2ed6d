import Mathlib.Data.List.Basic

/-!
# Monitors over a log

A monitor reads the observations of a log in order and judges each of them in the state
it has reached. `Accepts` is a safety property of the log: it survives taking a prefix,
and extending a log asks only about the new observations.
-/
namespace CsiHttp.Lib

universe u v

structure Monitor (O : Type u) (Q : Type v) where
  next : Q → O → Q
  ok : Q → O → Prop

namespace Monitor

variable {O : Type u} {Q : Type v} (M : Monitor O Q)

/-- The state after reading a log. -/
def after (q : Q) (log : List O) : Q := log.foldl M.next q

def Accepts : Q → List O → Prop
  | _, [] => True
  | q, o :: os => M.ok q o ∧ Accepts (M.next q o) os

variable {M} {q : Q} {o : O} {l l' : List O}

@[simp] theorem after_nil : M.after q [] = q := rfl

@[simp] theorem after_cons : M.after q (o :: l) = M.after (M.next q o) l := rfl

theorem after_append : M.after q (l ++ l') = M.after (M.after q l) l' := List.foldl_append

@[simp] theorem accepts_nil : M.Accepts q [] := trivial

@[simp] theorem accepts_cons : M.Accepts q (o :: l) ↔ M.ok q o ∧ M.Accepts (M.next q o) l := Iff.rfl

theorem accepts_append :
    M.Accepts q (l ++ l') ↔ M.Accepts q l ∧ M.Accepts (M.after q l) l' := by
  induction l generalizing q with
  | nil => simp
  | cons o l ih => rw [List.cons_append, accepts_cons, accepts_cons, ih, after_cons, and_assoc]

/-- Two monitors that judge a log alike and then its continuation judge the whole alike. -/
theorem accepts_append_congr {N : Monitor O Q} (hl : M.Accepts q l ↔ N.Accepts q l)
    (hl' : M.Accepts (M.after q l) l' ↔ N.Accepts (N.after q l) l') :
    M.Accepts q (l ++ l') ↔ N.Accepts q (l ++ l') := by
  rw [accepts_append, accepts_append]
  exact and_congr hl hl'

/-- An accepted log was acceptable wherever it is looked at. -/
theorem Accepts.at (h : M.Accepts q (l ++ o :: l')) : M.ok (M.after q l) o :=
  (accepts_append.mp h).2.1

/-- Between two observations of an accepted log. -/
theorem Accepts.between {o' : O} {l'' : List O}
    (h : M.Accepts q (l ++ o :: l' ++ o' :: l'')) :
    M.Accepts (M.next (M.after q l) o) l' ∧ M.ok (M.after (M.next (M.after q l) o) l') o' := by
  rw [List.append_assoc, accepts_append] at h
  obtain ⟨-, -, h⟩ := h
  exact ⟨(accepts_append.mp h).1, h.at⟩

theorem accepts_iff_at : M.Accepts q l ↔ ∀ a o b, l = a ++ o :: b → M.ok (M.after q a) o := by
  constructor
  · rintro h a o b rfl
    exact h.at
  · intro h
    induction l generalizing q with
    | nil => trivial
    | cons o l ih =>
      refine ⟨h [] o l rfl, ih fun a o' b hl => ?_⟩
      exact h (o :: a) o' b (by rw [hl, List.cons_append])

/-- Observations that the monitor neither judges nor counts. -/
theorem after_of_still (h : ∀ o ∈ l, M.next q o = q) : M.after q l = q := by
  induction l with
  | nil => rfl
  | cons o l ih =>
    obtain ⟨ho, hl⟩ := List.forall_mem_cons.mp h
    rw [after_cons, ho, ih hl]

theorem accepts_of_still (h : ∀ o ∈ l, M.next q o = q ∧ M.ok q o) : M.Accepts q l := by
  induction l with
  | nil => trivial
  | cons o l ih =>
    obtain ⟨ho, hl⟩ := List.forall_mem_cons.mp h
    exact ⟨ho.2, ho.1.symm ▸ ih hl⟩

/-- A state that accepted observations leave only through `exit`. -/
theorem after_of_exit (exit : O → Prop) (hq : ∀ o, M.ok q o → ¬ exit o → M.next q o = q)
    (h : M.Accepts q l) (hl : ∀ o ∈ l, ¬ exit o) : M.after q l = q := by
  induction l with
  | nil => rfl
  | cons o l ih =>
    obtain ⟨ho, hl⟩ := List.forall_mem_cons.mp hl
    have hnext := hq o h.1 ho
    rw [after_cons, hnext]
    exact ih (hnext ▸ h.2) hl

end Monitor

end CsiHttp.Lib

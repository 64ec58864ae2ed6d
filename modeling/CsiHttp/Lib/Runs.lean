import Mathlib.Algebra.GroupWithZero.Nat
import Mathlib.Data.Option.Basic

/-!
# Runs of a machine driven by events

`step s e` is `none` when the event `e` cannot occur in the state `s`. A run takes
the events of a list in order. `Along step C s es` says that every event of the run
is taken in a state where `C` holds of it; it speaks about the choices of the
environment, never about what the machine answers.
-/
namespace CsiHttp.Lib.Runs

universe u v
variable {S : Type u} {E : Type v} {step : S → E → Option S}

def runs (step : S → E → Option S) : S → List E → Option S
  | s, [] => some s
  | s, e :: es => (step s e).bind (fun t => runs step t es)

def Along (step : S → E → Option S) (C : S → E → Prop) : S → List E → Prop
  | _, [] => True
  | s, e :: es => C s e ∧ ∀ t, step s e = some t → Along step C t es

@[simp] theorem runs_nil (s : S) : runs step s [] = some s := rfl

theorem runs_cons_iff {s u : S} {e : E} {es : List E} :
    runs step s (e :: es) = some u ↔ ∃ t, step s e = some t ∧ runs step t es = some u :=
  Option.bind_eq_some_iff

theorem runs_append_iff {s u : S} {es fs : List E} :
    runs step s (es ++ fs) = some u ↔ ∃ t, runs step s es = some t ∧ runs step t fs = some u := by
  induction es generalizing s with
  | nil => simp
  | cons e es ih =>
    rw [List.cons_append, runs_cons_iff]
    constructor
    · rintro ⟨t, ht, hu⟩
      obtain ⟨v, hv, hu⟩ := ih.mp hu
      exact ⟨v, runs_cons_iff.mpr ⟨t, ht, hv⟩, hu⟩
    · rintro ⟨v, hv, hu⟩
      obtain ⟨t, ht, hv⟩ := runs_cons_iff.mp hv
      exact ⟨t, ht, ih.mpr ⟨v, hv, hu⟩⟩

@[simp] theorem along_nil (C : S → E → Prop) (s : S) : Along step C s [] := trivial

theorem along_cons {C : S → E → Prop} {s t : S} {e : E} {es : List E} (ht : step s e = some t) :
    Along step C s (e :: es) ↔ C s e ∧ Along step C t es := by
  constructor
  · rintro ⟨hc, h⟩
    exact ⟨hc, h t ht⟩
  · rintro ⟨hc, h⟩
    refine ⟨hc, fun t' ht' => ?_⟩
    rw [ht] at ht'
    exact Option.some.inj ht' ▸ h

instance decidableAlong {C : S → E → Prop} [∀ s e, Decidable (C s e)] :
    ∀ s es, Decidable (Along step C s es)
  | _, [] => isTrue trivial
  | s, e :: es =>
    match h : step s e with
    | none => decidable_of_iff (C s e) ⟨fun hc => ⟨hc, fun _ ht => nomatch h.symm.trans ht⟩, And.left⟩
    | some t =>
      haveI := decidableAlong (C := C) t es
      decidable_of_iff (C s e ∧ Along step C t es) (along_cons h).symm

theorem along_append {C : S → E → Prop} {s t : S} {es fs : List E} (h : runs step s es = some t) :
    Along step C s (es ++ fs) ↔ Along step C s es ∧ Along step C t fs := by
  induction es generalizing s with
  | nil =>
    obtain rfl := Option.some.inj h
    simp
  | cons e es ih =>
    obtain ⟨v, hv, h⟩ := runs_cons_iff.mp h
    rw [List.cons_append, along_cons hv, along_cons hv, ih h, and_assoc]

theorem along_of_append {C : S → E → Prop} {s : S} {es fs : List E}
    (h : Along step C s (es ++ fs)) : Along step C s es := by
  induction es generalizing s with
  | nil => trivial
  | cons e es ih => exact ⟨h.1, fun t ht => ih (h.2 t ht)⟩

/-- A property that every allowed step preserves holds at the end of every run
whose steps are all allowed. -/
theorem invariant {I : S → Prop} {D : S → E → Prop}
    (hstep : ∀ s e t, I s → D s e → step s e = some t → I t) {s u : S} {es : List E}
    (hs : I s) (hd : Along step D s es) (h : runs step s es = some u) : I u := by
  induction es generalizing s with
  | nil =>
    obtain rfl := Option.some.inj h
    exact hs
  | cons e es ih =>
    obtain ⟨t, ht, h⟩ := runs_cons_iff.mp h
    obtain ⟨hde, hd⟩ := (along_cons ht).mp hd
    exact ih (hstep s e t hs hde ht) hd h

/-- The rule for an invariant that also speaks about the events taken so far. -/
theorem history {I : List E → S → Prop} {D : S → E → Prop}
    (hstep : ∀ past s e t, I past s → D s e → step s e = some t → I (past ++ [e]) t) {s u : S}
    {past es : List E} (hs : I past s) (hd : Along step D s es) (h : runs step s es = some u) :
    I (past ++ es) u := by
  induction es generalizing s past with
  | nil =>
    obtain rfl := Option.some.inj h
    simpa using hs
  | cons e es ih =>
    obtain ⟨t, ht, h⟩ := runs_cons_iff.mp h
    obtain ⟨hde, hd⟩ := (along_cons ht).mp hd
    have hI := ih (hstep past s e t hs hde ht) hd h
    rwa [List.append_assoc] at hI

/-- `Q` holds in every state the run goes through, the last one included. -/
def Throughout (step : S → E → Option S) (Q : S → Prop) : S → List E → Prop
  | s, [] => Q s
  | s, e :: es => Q s ∧ ∀ t, step s e = some t → Throughout step Q t es

theorem Throughout.head {Q : S → Prop} {s : S} {es : List E} (h : Throughout step Q s es) : Q s := by
  cases es with
  | nil => exact h
  | cons e es => exact h.1

/-- The last state of a run is one of the states it goes through. -/
theorem Throughout.last {Q : S → Prop} {s u : S} {es : List E} (h : Throughout step Q s es)
    (hr : runs step s es = some u) : Q u := by
  induction es generalizing s with
  | nil =>
    obtain rfl := Option.some.inj hr
    exact h
  | cons e es ih =>
    obtain ⟨t, ht, hr⟩ := runs_cons_iff.mp hr
    exact ih (h.2 t ht) hr

/-- An invariant that every allowed step keeps holds of every state a run goes through. -/
theorem throughout_of_step {I Q : S → Prop} {D : S → E → Prop} (hgood : ∀ s, I s → Q s)
    (hstep : ∀ s e t, I s → D s e → step s e = some t → I t) {s : S} {es : List E}
    (hs : I s) (hd : Along step D s es) : Throughout step Q s es := by
  induction es generalizing s with
  | nil => exact hgood s hs
  | cons e es ih => exact ⟨hgood s hs, fun t ht => ih (hstep s e t hs hd.1 ht) (hd.2 t ht)⟩

/-- A property that no step restores holds throughout a run if it holds at its end. -/
theorem throughout_iff_last {Q : S → Prop} (hmono : ∀ s e t, step s e = some t → Q t → Q s)
    {s u : S} {es : List E} (h : runs step s es = some u) : Throughout step Q s es ↔ Q u := by
  refine ⟨fun hq => hq.last h, fun hq => ?_⟩
  induction es generalizing s with
  | nil =>
    obtain rfl := Option.some.inj h
    exact hq
  | cons e es ih =>
    obtain ⟨t, ht, h⟩ := runs_cons_iff.mp h
    have hrest := ih h
    refine ⟨hmono s e t ht hrest.head, fun t' ht' => ?_⟩
    rw [ht] at ht'
    exact Option.some.inj ht' ▸ hrest

/-- When the steps on which `C` holds keep the invariant, which gives `Q`, and every other
step breaks `Q` at once, a run goes through states with `Q` only exactly if `C` holds
all along. -/
theorem throughout_iff_along {I Q : S → Prop} {C D : S → E → Prop}
    (hgood : ∀ s, I s → Q s)
    (hstep : ∀ s e t, I s → D s e → C s e → step s e = some t → I t)
    (hbreak : ∀ s e t, I s → D s e → ¬ C s e → step s e = some t → ¬ Q t) {s u : S} {es : List E}
    (hs : I s) (hd : Along step D s es) (h : runs step s es = some u) :
    Throughout step Q s es ↔ Along step C s es := by
  induction es generalizing s with
  | nil => exact iff_of_true (hgood s hs) trivial
  | cons e es ih =>
    obtain ⟨t, ht, h⟩ := runs_cons_iff.mp h
    obtain ⟨hde, hd⟩ := (along_cons ht).mp hd
    rw [along_cons ht]
    by_cases hc : C s e
    · have hit := ih (hstep s e t hs hde hc ht) hd h
      constructor
      · exact fun hq => ⟨hc, hit.mp (hq.2 t ht)⟩
      · rintro ⟨-, ha⟩
        refine ⟨hgood s hs, fun t' ht' => ?_⟩
        rw [ht] at ht'
        exact Option.some.inj ht' ▸ hit.mpr ha
    · refine iff_of_false (fun hq => ?_) (fun ha => hc ha.1)
      exact hbreak s e t hs hde hc ht (hq.2 t ht).head

/-- What every step of a run does. -/
def Steps (step : S → E → Option S) (P : S → E → S → Prop) (s : S) (es : List E) : Prop :=
  Along step (fun s e => ∀ t, step s e = some t → P s e t) s es

/-- An invariant that every allowed step keeps gives what every allowed step does. -/
theorem steps_of_step {I : S → Prop} {D : S → E → Prop} {P : S → E → S → Prop}
    (hstep : ∀ s e t, I s → D s e → step s e = some t → I t ∧ P s e t) {s : S} {es : List E}
    (hs : I s) (hd : Along step D s es) : Steps step P s es := by
  induction es generalizing s with
  | nil => trivial
  | cons e es ih =>
    exact ⟨fun t ht => (hstep s e t hs hd.1 ht).2,
      fun t ht => ih (hstep s e t hs hd.1 ht).1 (hd.2 t ht)⟩

/-- When the steps on which `C` holds keep the invariant and do what `P` says, and no other
step does, every step of a run does exactly if `C` holds all along. -/
theorem steps_iff_along {I : S → Prop} {C D : S → E → Prop} {P : S → E → S → Prop}
    (hstep : ∀ s e t, I s → D s e → C s e → step s e = some t → I t ∧ P s e t)
    (hbreak : ∀ s e t, I s → D s e → ¬ C s e → step s e = some t → ¬ P s e t) {s u : S} {es : List E}
    (hs : I s) (hd : Along step D s es) (h : runs step s es = some u) :
    Steps step P s es ↔ Along step C s es := by
  unfold Steps
  induction es generalizing s with
  | nil => exact iff_of_true trivial trivial
  | cons e es ih =>
    obtain ⟨t, ht, h⟩ := runs_cons_iff.mp h
    obtain ⟨hde, hd⟩ := (along_cons ht).mp hd
    rw [along_cons ht, along_cons ht]
    by_cases hc : C s e
    · obtain ⟨hit, hp⟩ := hstep s e t hs hde hc ht
      rw [ih hit hd h]
      refine and_congr_left fun _ => iff_of_true (fun t' ht' => ?_) hc
      rw [ht] at ht'
      exact Option.some.inj ht' ▸ hp
    · exact iff_of_false (fun hp => hbreak s e t hs hde hc ht (hp.1 t ht)) (fun ha => hc ha.1)

/-- A property that no step restores holds after every step of a run if it holds at its end. -/
theorem steps_of_last {Q : S → Prop} (hmono : ∀ s e t, step s e = some t → Q t → Q s)
    {s u : S} {es : List E} (h : runs step s es = some u) (hq : Q u) :
    Steps step (fun _ _ t => Q t) s es := by
  induction es generalizing s with
  | nil => trivial
  | cons e es ih =>
    obtain ⟨t, ht, h⟩ := runs_cons_iff.mp h
    have hall := (throughout_iff_last hmono h).mpr hq
    refine (along_cons ht).mpr ⟨fun t' ht' => ?_, ih h⟩
    rw [ht] at ht'
    exact Option.some.inj ht' ▸ hall.head

/-- What an invariant gives for every allowed step holds along every allowed run. -/
theorem along_of_step {I : S → Prop} {C D : S → E → Prop}
    (hstep : ∀ s e t, I s → D s e → step s e = some t → I t)
    (hC : ∀ s e t, I s → D s e → step s e = some t → C s e) {s u : S} {es : List E} (hs : I s)
    (hd : Along step D s es) (h : runs step s es = some u) : Along step C s es := by
  induction es generalizing s with
  | nil => trivial
  | cons e es ih =>
    obtain ⟨t, ht, h⟩ := runs_cons_iff.mp h
    obtain ⟨hde, hd⟩ := (along_cons ht).mp hd
    exact (along_cons ht).mpr ⟨hC s e t hs hde ht, ih (hstep s e t hs hde ht) hd h⟩

/-- A condition that holds of every step of the machine holds along every run. -/
theorem along_of_forall {C : S → E → Prop} (hC : ∀ s e, C s e) (s : S) (es : List E) :
    Along step C s es := by
  induction es generalizing s with
  | nil => trivial
  | cons e es ih => exact ⟨hC s e, fun t _ => ih t⟩

/-- A condition on the events alone. -/
theorem along_of_mem {C : E → Prop} {es : List E} (hC : ∀ e ∈ es, C e) (s : S) :
    Along step (fun _ e => C e) s es := by
  induction es generalizing s with
  | nil => trivial
  | cons e es ih =>
    obtain ⟨he, hes⟩ := List.forall_mem_cons.mp hC
    exact ⟨he, fun t _ => ih hes t⟩

/-- When every allowed step uses up what it costs, a run costs no more than there is at its
start. -/
theorem bounded {I : S → Prop} {D : S → E → Prop} {μ : S → Nat} {c : E → Nat}
    (hstep : ∀ s e t, I s → D s e → step s e = some t → I t ∧ c e + μ t ≤ μ s) {s u : S}
    {es : List E} (hs : I s) (hd : Along step D s es) (h : runs step s es = some u) :
    (es.map c).sum + μ u ≤ μ s := by
  induction es generalizing s with
  | nil =>
    obtain rfl := Option.some.inj h
    exact Nat.le_of_eq (Nat.zero_add _)
  | cons e es ih =>
    obtain ⟨t, ht, h⟩ := runs_cons_iff.mp h
    obtain ⟨hde, hd⟩ := (along_cons ht).mp hd
    obtain ⟨hit, hcost⟩ := hstep s e t hs hde ht
    have hrest := ih hit hd h
    rw [List.map_cons, List.sum_cons]
    omega

end CsiHttp.Lib.Runs

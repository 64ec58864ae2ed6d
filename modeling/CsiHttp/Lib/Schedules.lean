import CsiHttp.Lib.Runs

/-!
# Schedules with the same views

Every event concerns some places, and two events that concern no common place can be swapped
where they stand side by side. Two schedules that show the same events, in the same order, at
every place then lead to the same state.
-/
namespace CsiHttp.Lib.Schedules

open Runs

universe u v w
variable {S : Type u} {E : Type v} {L : Type w} {step : S → E → Option S} {touches : E → L → Bool}

/-- What can be seen of a schedule at a place. -/
def view (touches : E → L → Bool) (l : L) (es : List E) : List E := es.filter (fun e => touches e l)

/-- No place tells the two schedules apart. -/
def SameViews (touches : E → L → Bool) (es fs : List E) : Prop := ∀ l, view touches l es = view touches l fs

/-- Under the invariant `I`, neighbours without a common place can be swapped in every run that
ends well. -/
structure Swaps (step : S → E → Option S) (touches : E → L → Bool) (I Good : S → Prop) : Prop where
  placed : ∀ e, ∃ l, touches e l = true
  kept : ∀ s e t, I s → step s e = some t → I t
  back : ∀ s e t, step s e = some t → Good t → Good s
  swap : ∀ s a t b u, I s → (∀ l, touches a l = true → touches b l = false) → step s a = some t →
    step t b = some u → Good u → ∃ t', step s b = some t' ∧ step t' a = some u

variable {I Good : S → Prop} {s u : S} {e f : E} {es fs before after : List E} {l : L}

theorem view_cons (h : touches e l = true) : view touches l (e :: es) = e :: view touches l es :=
  List.filter_cons_of_pos h

theorem view_skip (h : ¬ touches e l = true) : view touches l (e :: es) = view touches l es :=
  List.filter_cons_of_neg h

theorem view_append : view touches l (es ++ fs) = view touches l es ++ view touches l fs :=
  List.filter_append ..

theorem good_of_runs (h : Swaps step touches I Good) (hr : runs step s es = some u) (hu : Good u) :
    Good s := by
  induction es generalizing s with
  | nil =>
    obtain rfl := Option.some.inj hr
    exact hu
  | cons e es ih =>
    obtain ⟨t, ht, hr⟩ := runs_cons_iff.mp hr
    exact h.back s e t ht (ih hr)

/-- An event moves in front of events with which it shares no place. -/
theorem runs_move (h : Swaps step touches I Good)
    (hb : ∀ b ∈ before, ∀ l, touches b l = true → touches f l = false)
    (hs : I s) (hr : runs step s (before ++ f :: after) = some u) (hu : Good u) :
    runs step s (f :: before ++ after) = some u := by
  induction before generalizing s with
  | nil => exact hr
  | cons b before ih =>
    obtain ⟨hbf, hb⟩ := List.forall_mem_cons.mp hb
    obtain ⟨t, ht, hr⟩ := runs_cons_iff.mp hr
    obtain ⟨v, hv, hr⟩ := runs_cons_iff.mp (ih hb (h.kept s b t hs ht) hr)
    obtain ⟨t', ht', hv'⟩ := h.swap s b t f v hs hbf ht hv (good_of_runs h hr hu)
    exact runs_cons_iff.mpr ⟨t', ht', runs_cons_iff.mpr ⟨v, hv', hr⟩⟩

/-- The first event of one schedule stands in the other behind events of other places only. -/
theorem first_event (h : Swaps step touches I Good) (hv : SameViews touches es (f :: fs)) :
    ∃ before after, es = before ++ f :: after ∧
      ∀ b ∈ before, ∀ l, touches b l = true → touches f l = false := by
  obtain ⟨l, hl⟩ := h.placed f
  have hfirst : view touches l es = f :: view touches l fs := (hv l).trans (view_cons hl)
  obtain ⟨before, after, rfl, hbefore, -, -⟩ := List.filter_eq_cons_iff.mp hfirst
  refine ⟨before, after, rfl, fun b hb l' hb' => ?_⟩
  -- were `f` seen at a place of `b`, an earlier `f` would be seen there first
  by_contra hf'
  have hf' : touches f l' = true := by simpa using hf'
  have hfirst' : view touches l' (before ++ f :: after) = f :: view touches l' fs :=
    (hv l').trans (view_cons hf')
  have hb'' : b ∈ view touches l' before := List.mem_filter.mpr ⟨hb, hb'⟩
  have hmem : f ∈ before := by
    rw [view_append] at hfirst'
    cases hc : view touches l' before with
    | nil =>
      rw [hc] at hb''
      cases hb''
    | cons x xs =>
      rw [hc, List.cons_append] at hfirst'
      obtain ⟨rfl, -⟩ := List.cons.inj hfirst'
      exact (List.mem_filter.mp (hc ▸ List.mem_cons_self)).1
  exact absurd hl (hbefore f hmem)

/-- What is left of both schedules without that event looks the same again. -/
theorem sameViews_rest (hb : ∀ b ∈ before, ∀ l, touches b l = true → touches f l = false)
    (hv : SameViews touches (before ++ f :: after) (f :: fs)) : SameViews touches (before ++ after) fs := by
  intro l
  have hl := hv l
  rw [view_append] at hl ⊢
  by_cases hf : touches f l = true
  · have hnone : view touches l before = [] := by
      apply List.filter_eq_nil_iff.mpr
      intro b hmem hbl
      exact absurd hf (by rw [hb b hmem l hbl]; exact Bool.false_ne_true)
    rw [hnone, List.nil_append] at hl ⊢
    rw [view_cons hf, view_cons hf] at hl
    exact (List.cons.inj hl).2
  · rwa [view_skip hf, view_skip hf] at hl

/-- Schedules with the same views lead to the same state. -/
theorem runs_of_sameViews (h : Swaps step touches I Good) (hs : I s)
    (hv : SameViews touches es fs) (hr : runs step s es = some u) (hu : Good u) :
    runs step s fs = some u := by
  induction fs generalizing s es with
  | nil =>
    cases es with
    | nil => exact hr
    | cons e es =>
      obtain ⟨l, hl⟩ := h.placed e
      have hnil := hv l
      rw [view_cons hl] at hnil
      cases hnil
  | cons f fs ih =>
    obtain ⟨before, after, rfl, hb⟩ := first_event h hv
    obtain ⟨t, ht, hr⟩ := runs_cons_iff.mp (runs_move h hb hs hr hu)
    exact runs_cons_iff.mpr ⟨t, ht, ih (h.kept s f t hs ht) (sameViews_rest hb hv) hr⟩

end CsiHttp.Lib.Schedules

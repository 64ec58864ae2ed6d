import Mathlib.Data.List.Basic

/-!
# A one-shot timer with waits that can be aborted

Cancelling the timer, or setting a new expiry time, completes every wait that is
still pending with an abort; when the deadline passes every pending wait completes
with success. A completion is only queued: its handler runs later, and a completion
that is queued already is no longer affected by a cancel.

The epoch counts the cancels and re-arms. A wait keeps the epoch in which it was
started, so a queued success is stale when the epochs differ.
-/
namespace CsiHttp.Lib

/-- An error code, as far as completion handlers tell them apart. -/
inductive ErrorCode where
  | success
  | operationAborted
  | failure
  deriving DecidableEq, Repr

structure Wait (H : Type) where
  handler : H
  epoch : Nat
  deriving DecidableEq, Repr

/-- A completed wait on the way to its handler. -/
structure Completion (H : Type) where
  wait : Wait H
  code : ErrorCode
  deriving DecidableEq, Repr

/-- `expiry` is the time last set, in milliseconds from the moment it was set. -/
structure DeadlineTimer (H : Type) where
  pending : List (Wait H)
  queued : List (Completion H)
  epoch : Nat
  expiry : Nat
  deriving DecidableEq, Repr

namespace DeadlineTimer

variable {H : Type}

def new : DeadlineTimer H := ⟨[], [], 0, 0⟩

def complete (t : DeadlineTimer H) (e : ErrorCode) : DeadlineTimer H :=
  { t with pending := [], queued := t.queued ++ t.pending.map (fun w => ⟨w, e⟩) }

def cancel (t : DeadlineTimer H) : DeadlineTimer H :=
  { t.complete .operationAborted with epoch := t.epoch + 1 }

def expiresFromNow (t : DeadlineTimer H) (ms : Nat) : DeadlineTimer H :=
  { t.cancel with expiry := ms }

def asyncWait (t : DeadlineTimer H) (h : H) : DeadlineTimer H :=
  { t with pending := t.pending ++ [⟨h, t.epoch⟩] }

/-- The deadline passes. -/
def expire (t : DeadlineTimer H) : DeadlineTimer H := t.complete .success

/-- Take the completion at index `i` out of the queue. -/
def dequeue (t : DeadlineTimer H) (i : Nat) : Option (Completion H × DeadlineTimer H) :=
  (t.queued[i]?).map (fun c => (c, { t with queued := t.queued.eraseIdx i }))

@[simp] theorem cancel_queued (t : DeadlineTimer H) :
    t.cancel.queued = t.queued ++ t.pending.map (fun w => ⟨w, .operationAborted⟩) := rfl
@[simp] theorem expire_queued (t : DeadlineTimer H) :
    t.expire.queued = t.queued ++ t.pending.map (fun w => ⟨w, .success⟩) := rfl

theorem dequeue_eq_some {t u : DeadlineTimer H} {i : Nat} {c : Completion H}
    (h : t.dequeue i = some (c, u)) :
    t.queued[i]? = some c ∧ u = { t with queued := t.queued.eraseIdx i } := by
  obtain ⟨c', hc, he⟩ := Option.map_eq_some_iff.mp h
  obtain ⟨rfl, rfl⟩ := Prod.mk.inj he
  exact ⟨hc, rfl⟩

/-- What is counted among the queued completions drops by one when it is taken out. -/
theorem countP_dequeue {t u : DeadlineTimer H} {i : Nat} {c : Completion H}
    (p : Completion H → Bool) (h : t.dequeue i = some (c, u)) :
    t.queued.countP p = u.queued.countP p + if p c then 1 else 0 := by
  obtain ⟨hc, rfl⟩ := dequeue_eq_some h
  obtain ⟨hi, rfl⟩ := List.getElem?_eq_some_iff.mp hc
  have hsplit : t.queued = t.queued.take i ++ t.queued[i] :: t.queued.drop (i + 1) := by
    rw [← List.drop_eq_getElem_cons hi, List.take_append_drop]
  conv_lhs => rw [hsplit]
  rw [List.eraseIdx_eq_take_drop_succ, List.countP_append, List.countP_append, List.countP_cons,
    Nat.add_assoc]

/-! ## Epochs -/

/-- What cancelling and re-arming, however often, does to a timer: waits are only added in later
epochs, and completions only as aborts. -/
structure Evolves (t u : DeadlineTimer H) : Prop where
  epoch : t.epoch ≤ u.epoch
  pending : ∀ w ∈ u.pending, w ∈ t.pending ∨ (t.epoch < w.epoch ∧ w.epoch ≤ u.epoch)
  queued : ∃ q, u.queued = t.queued ++ q ∧
    ∀ c ∈ q, c.code = .operationAborted ∧ (c.wait ∈ t.pending ∨ c.wait.epoch ≤ u.epoch)

theorem Evolves.refl (t : DeadlineTimer H) : Evolves t t :=
  ⟨Nat.le_refl _, fun _ h => Or.inl h, [], (List.append_nil _).symm, List.forall_mem_nil _⟩

theorem Evolves.trans {t u v : DeadlineTimer H} (h : Evolves t u) (h' : Evolves u v) :
    Evolves t v := by
  have h1 := h.epoch
  have h2 := h'.epoch
  obtain ⟨q, hq, ha⟩ := h.queued
  obtain ⟨q', hq', ha'⟩ := h'.queued
  refine ⟨Nat.le_trans h1 h2, fun w hw => ?_, q ++ q', ?_, List.forall_mem_append.mpr ⟨?_, ?_⟩⟩
  · rcases h'.pending w hw with hw | ⟨hlt, hle⟩
    · rcases h.pending w hw with hw | ⟨hlt, hle⟩
      · exact Or.inl hw
      · exact Or.inr ⟨hlt, Nat.le_trans hle h2⟩
    · exact Or.inr ⟨Nat.lt_of_le_of_lt h1 hlt, hle⟩
  · rw [hq', hq, List.append_assoc]
  · exact fun c hc => ⟨(ha c hc).1, (ha c hc).2.imp_right fun hle => Nat.le_trans hle h2⟩
  · intro c hc
    refine ⟨(ha' c hc).1, ?_⟩
    rcases (ha' c hc).2 with hw | hle
    · exact (h.pending c.wait hw).imp_right fun hw => Nat.le_trans hw.2 h2
    · exact Or.inr hle

theorem evolves_cancel (t : DeadlineTimer H) : Evolves t t.cancel := by
  refine ⟨Nat.le_succ _, List.forall_mem_nil _, _, rfl, ?_⟩
  rw [List.forall_mem_map]
  exact fun w hw => ⟨rfl, Or.inl hw⟩

theorem evolves_arm (t : DeadlineTimer H) (ms : Nat) (h : H) :
    Evolves t ((t.expiresFromNow ms).asyncWait h) := by
  refine ⟨Nat.le_succ _, ?_, t.evolves_cancel.queued⟩
  intro w hw
  obtain rfl := List.mem_singleton.mp hw
  exact Or.inr ⟨Nat.lt_succ_self _, Nat.le_refl _⟩

/-- No wait is of a later epoch than the timer. -/
structure Dated (t : DeadlineTimer H) : Prop where
  pending : ∀ w ∈ t.pending, w.epoch ≤ t.epoch
  queued : ∀ c ∈ t.queued, c.wait.epoch ≤ t.epoch

/-- The timer is past epoch `n`, and so is every wait that can still complete with success. -/
structure Past (n : Nat) (t : DeadlineTimer H) : Prop where
  epoch : n < t.epoch
  pending : ∀ w ∈ t.pending, n < w.epoch
  queued : ∀ c ∈ t.queued, c.code = .success → n < c.wait.epoch

section Epochs

variable {t u : DeadlineTimer H} {n i : Nat} {c : Completion H}

theorem Dated.evolves (h : t.Dated) (he : Evolves t u) : u.Dated := by
  have hle := he.epoch
  obtain ⟨q, hq, ha⟩ := he.queued
  refine ⟨fun w hw => ?_, ?_⟩
  · rcases he.pending w hw with hw | hw
    · exact Nat.le_trans (h.pending w hw) hle
    · exact hw.2
  · rw [hq, List.forall_mem_append]
    refine ⟨fun c hc => Nat.le_trans (h.queued c hc) hle, fun c hc => ?_⟩
    rcases (ha c hc).2 with hw | hw
    · exact Nat.le_trans (h.pending _ hw) hle
    · exact hw

theorem Dated.expire (h : t.Dated) : t.expire.Dated := by
  refine ⟨List.forall_mem_nil _, ?_⟩
  rw [expire_queued, List.forall_mem_append, List.forall_mem_map]
  exact ⟨h.queued, h.pending⟩

theorem Dated.dequeue (h : t.Dated) (hd : t.dequeue i = some (c, u)) : u.Dated := by
  obtain ⟨-, rfl⟩ := dequeue_eq_some hd
  exact ⟨h.pending, fun c hc => h.queued c (List.mem_of_mem_eraseIdx hc)⟩

theorem Past.evolves (h : t.Past n) (he : Evolves t u) : u.Past n := by
  have hlt := h.epoch
  obtain ⟨q, hq, ha⟩ := he.queued
  refine ⟨Nat.lt_of_lt_of_le hlt he.epoch, fun w hw => ?_, ?_⟩
  · rcases he.pending w hw with hw | hw
    · exact h.pending w hw
    · exact Nat.lt_trans hlt hw.1
  · rw [hq, List.forall_mem_append]
    refine ⟨h.queued, fun c hc hs => ?_⟩
    rw [(ha c hc).1] at hs
    cases hs

theorem Past.expire (h : t.Past n) : t.expire.Past n := by
  refine ⟨h.epoch, List.forall_mem_nil _, ?_⟩
  rw [expire_queued, List.forall_mem_append, List.forall_mem_map]
  exact ⟨h.queued, fun w hw _ => h.pending w hw⟩

theorem Past.dequeue (h : t.Past n) (hd : t.dequeue i = some (c, u)) :
    u.Past n ∧ (c.code = .success → n < c.wait.epoch) := by
  obtain ⟨hc, rfl⟩ := dequeue_eq_some hd
  refine ⟨⟨h.epoch, h.pending, fun c hc => h.queued c (List.mem_of_mem_eraseIdx hc)⟩, ?_⟩
  exact h.queued c (List.mem_of_getElem? hc)

/-- Cancelling leaves the past behind, unless a success is queued already. -/
theorem past_cancel (h : ∀ c ∈ t.queued, c.code ≠ .success) : t.cancel.Past t.epoch := by
  refine ⟨Nat.lt_succ_self _, List.forall_mem_nil _, ?_⟩
  rw [cancel_queued, List.forall_mem_append, List.forall_mem_map]
  exact ⟨fun c hc hs => absurd hs (h c hc), fun _ _ hs => by cases hs⟩

/-- A queued completion stays queued until it is taken out. -/
theorem mem_of_dequeue {d : Completion H} (hd : t.dequeue i = some (c, u)) (h : d ∈ t.queued) :
    d = c ∨ d ∈ u.queued := by
  obtain ⟨hc, rfl⟩ := dequeue_eq_some hd
  obtain ⟨j, hj, rfl⟩ := List.mem_iff_getElem.mp h
  by_cases hij : j = i
  · subst hij
    rw [List.getElem?_eq_getElem hj] at hc
    exact Or.inl (Option.some.inj hc)
  · exact Or.inr (List.mem_eraseIdx_iff_getElem.mpr ⟨j, hj, hij, rfl⟩)

end Epochs

end DeadlineTimer

end CsiHttp.Lib

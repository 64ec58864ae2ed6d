import CsiHttp.Client.Transfers

/-!
# The keepalive timer

A client always has a wait under way that starts itself again, so that the thread in
`io_service::run` does not run out of work between two requests. `close` aborts the wait, and the
thread can be joined; but a wait that has elapsed already is not aborted any more, and goes on.
-/
namespace CsiHttp.Client

open Lib Lib.Text Lib.Runs

/-- A client with its `_keepalive_timer`. -/
structure Driver where
  client : HttpClient
  keepAlive : DeadlineTimer Unit

namespace Driver

inductive Event where
  | client (ev : Client.Event)
  /-- The deadline of the keepalive timer passes. -/
  | elapse
  /-- The queued completion `i` of the keepalive timer runs. -/
  | keepAlive (i : Nat)
  | close
  deriving DecidableEq

/-- `http_client::http_client`. -/
def new (method : Nat → Nat) (content : Nat → Bytes) : Driver where
  client := .new method content
  keepAlive := (DeadlineTimer.new.expiresFromNow 1000).asyncWait ()

/-- `http_client::keepalivetimer_cb`. -/
def keepalivetimerCb (d : Driver) (e : ErrorCode) : Driver :=
  match e with
  | .success => { d with keepAlive := (d.keepAlive.expiresFromNow 1000).asyncWait () }
  | .operationAborted | .failure => d

/-- `http_client::close`. -/
def close (d : Driver) : Driver :=
  { client := { d.client with timer := d.client.timer.cancel }
    keepAlive := d.keepAlive.cancel }

def step (d : Driver) (ev : Event) : Option Driver :=
  if d.client.fault.isSome then none
  else match ev with
  | .client ev => (d.client.step ev).map (fun c => { d with client := c })
  | .elapse =>
    if d.keepAlive.pending ≠ [] then some { d with keepAlive := d.keepAlive.expire } else none
  | .keepAlive i => (d.keepAlive.dequeue i).map (fun x =>
      keepalivetimerCb { d with keepAlive := x.2 } x.1.code)
  | .close => some d.close

/-- There is nothing left that `io_service::run` would wait for. -/
def Idle (d : Driver) : Prop :=
  d.client.watches = [] ∧ d.client.queue = [] ∧ d.client.timer.pending = [] ∧
    d.client.timer.queued = [] ∧ d.keepAlive.pending = [] ∧ d.keepAlive.queued = []

/-- One wait is under way, or has elapsed and will be started again. -/
def Beating (t : DeadlineTimer Unit) : Prop :=
  ∃ w, (t.pending = [w] ∧ t.queued = []) ∨ (t.pending = [] ∧ t.queued = [⟨w, .success⟩])

/-- No wait is under way, and none will be started. -/
def Silenced (t : DeadlineTimer Unit) : Prop :=
  t.pending = [] ∧ ∀ x ∈ t.queued, x.code ≠ .success

/-- A `close` finds no wait that it could abort. -/
def TooLate (d : Driver) (ev : Event) : Prop := ev = .close → d.keepAlive.pending = []

variable {d e u : Driver} {ev : Event} {es : List Event}

theorem silenced_of_not_tooLate (hb : Beating d.keepAlive) (hlate : ¬ TooLate d ev)
    (hs : step d ev = some e) : Silenced e.keepAlive := by
  have hpending : d.keepAlive.pending ≠ [] := fun hp => hlate fun _ => hp
  obtain rfl : ev = .close := by
    by_contra hne
    exact hlate fun h => absurd h hne
  obtain ⟨-, hs⟩ := Option.ite_none_left_eq_some.mp hs
  obtain rfl := Option.some.inj hs
  obtain ⟨w, ⟨hp, hq⟩ | ⟨hp, hq⟩⟩ := hb
  · refine ⟨rfl, fun x hx => ?_⟩
    change x ∈ d.keepAlive.cancel.queued at hx
    rw [DeadlineTimer.cancel_queued, hp, hq] at hx
    obtain rfl := List.mem_singleton.mp hx
    exact ErrorCode.noConfusion
  · exact absurd hp hpending

theorem step_beating (hb : Beating d.keepAlive) (hlate : TooLate d ev)
    (hs : step d ev = some e) : Beating e.keepAlive := by
  obtain ⟨-, hs⟩ := Option.ite_none_left_eq_some.mp hs
  cases ev with
  | client ev =>
    obtain ⟨c, -, rfl⟩ := Option.map_eq_some_iff.mp hs
    exact hb
  | elapse =>
    obtain ⟨hpending, hs⟩ := Option.ite_none_right_eq_some.mp hs
    obtain rfl := Option.some.inj hs
    obtain ⟨w, ⟨hp, hq⟩ | ⟨hp, hq⟩⟩ := hb
    · refine ⟨w, Or.inr ⟨rfl, ?_⟩⟩
      change d.keepAlive.expire.queued = _
      rw [DeadlineTimer.expire_queued, hp, hq]
      rfl
    · exact absurd hp hpending
  | keepAlive i =>
    obtain ⟨x, hx, rfl⟩ := Option.map_eq_some_iff.mp hs
    obtain ⟨hget, hrest⟩ := DeadlineTimer.dequeue_eq_some hx
    obtain ⟨w, ⟨hp, hq⟩ | ⟨hp, hq⟩⟩ := hb
    · rw [hq] at hget
      cases hget
    · -- the completion that is queued starts the wait again
      rw [hq] at hget
      obtain ⟨hi, hx1⟩ := List.getElem?_eq_some_iff.mp hget
      have hi0 : i = 0 := Nat.lt_one_iff.mp hi
      subst hi0
      have hcode : x.1.code = .success := by
        rw [← hx1]
        rfl
      refine ⟨⟨(), x.2.epoch + 1⟩, Or.inl ?_⟩
      rw [hcode]
      refine ⟨rfl, ?_⟩
      change x.2.cancel.queued = []
      rw [DeadlineTimer.cancel_queued, hrest, hp, hq]
      rfl
  | close =>
    obtain rfl := Option.some.inj hs
    have hp := hlate rfl
    obtain ⟨w, ⟨hp', hq⟩ | ⟨-, hq⟩⟩ := hb
    · rw [hp] at hp'
      cases hp'
    · refine ⟨w, Or.inr ⟨rfl, ?_⟩⟩
      change d.keepAlive.cancel.queued = _
      rw [DeadlineTimer.cancel_queued, hp, hq]
      rfl

theorem step_silenced (hq : Silenced d.keepAlive) (hs : step d ev = some e) :
    Silenced e.keepAlive := by
  obtain ⟨hp, hq⟩ := hq
  obtain ⟨-, hs⟩ := Option.ite_none_left_eq_some.mp hs
  cases ev with
  | client ev =>
    obtain ⟨c, -, rfl⟩ := Option.map_eq_some_iff.mp hs
    exact ⟨hp, hq⟩
  | elapse =>
    obtain ⟨hpending, -⟩ := Option.ite_none_right_eq_some.mp hs
    exact absurd hp hpending
  | keepAlive i =>
    obtain ⟨x, hx, rfl⟩ := Option.map_eq_some_iff.mp hs
    obtain ⟨hget, hrest⟩ := DeadlineTimer.dequeue_eq_some hx
    have hcode := hq x.1 (List.mem_of_getElem? hget)
    have hkept : keepalivetimerCb { d with keepAlive := x.2 } x.1.code =
        { d with keepAlive := x.2 } := by
      unfold keepalivetimerCb
      cases hc : x.1.code with
      | success => exact absurd hc hcode
      | operationAborted | failure => rfl
    rw [hkept, hrest]
    exact ⟨hp, fun y hy => hq y (List.mem_of_mem_eraseIdx hy)⟩
  | close =>
    obtain rfl := Option.some.inj hs
    refine ⟨rfl, fun x hx => ?_⟩
    change x ∈ d.keepAlive.cancel.queued at hx
    rw [DeadlineTimer.cancel_queued, hp] at hx
    exact hq x (by simpa using hx)

theorem Beating.not_silenced {t : DeadlineTimer Unit} (hb : Beating t) : ¬ Silenced t := by
  intro hs
  obtain ⟨w, ⟨hp, -⟩ | ⟨-, hq⟩⟩ := hb
  · rw [hs.1] at hp
    cases hp
  · exact hs.2 ⟨w, .success⟩ (by rw [hq]; exact List.mem_singleton.mpr rfl) rfl

/-- From a state with a beat, the beat goes on exactly if every `close` comes too late. -/
theorem beating_or_silenced (hb : Beating d.keepAlive) (h : runs step d es = some u) :
    (Along step TooLate d es ∧ Beating u.keepAlive) ∨
      (¬ Along step TooLate d es ∧ Silenced u.keepAlive) := by
  induction es generalizing d with
  | nil =>
    obtain rfl := Option.some.inj h
    exact Or.inl ⟨trivial, hb⟩
  | cons ev es ih =>
    obtain ⟨e, he, h⟩ := runs_cons_iff.mp h
    by_cases hlate : TooLate d ev
    · rcases ih (step_beating hb hlate he) h with ⟨ha, hu⟩ | ⟨ha, hu⟩
      · exact Or.inl ⟨(along_cons he).mpr ⟨hlate, ha⟩, hu⟩
      · exact Or.inr ⟨fun hall => ha ((along_cons he).mp hall).2, hu⟩
    · have hsilent := invariant (I := fun d : Driver => Silenced d.keepAlive)
        (D := fun _ _ => True) (fun _ _ _ hq _ hs => step_silenced hq hs)
        (silenced_of_not_tooLate hb hlate he) (along_of_forall (fun _ _ => trivial) _ _) h
      exact Or.inr ⟨fun hall => hlate hall.1, hsilent⟩

/-- The `io_service` of a client does not run out of work before `close` has aborted the keepalive
wait, and a `close` that comes while the completion of an elapsed wait is queued has no effect on
it, for good. Once it is aborted no keepalive wait is ever started again. -/
theorem keepAlive_iff (method : Nat → Nat) (content : Nat → Bytes)
    (h : runs step (new method content) es = some u) :
    (Along step TooLate (new method content) es → ¬ u.Idle) ∧
      (Silenced u.keepAlive ↔ ¬ Along step TooLate (new method content) es) := by
  have hb : Beating (new method content).keepAlive := ⟨⟨(), 1⟩, Or.inl ⟨rfl, rfl⟩⟩
  rcases beating_or_silenced hb h with ⟨ha, hu⟩ | ⟨ha, hu⟩
  · refine ⟨fun _ hidle => ?_, iff_of_false hu.not_silenced (not_not.mpr ha)⟩
    obtain ⟨-, -, -, -, hp, hq⟩ := hidle
    refine hu.not_silenced ⟨hp, ?_⟩
    rw [hq]
    exact List.forall_mem_nil _
  · exact ⟨fun hall => absurd hall ha, iff_of_true hu ha⟩

/-- The deadline passes, and the client is closed before the completion runs. -/
def closedLate : List Event := [.elapse, .close, .keepAlive 0, .elapse]

theorem keepAlive_iff_closedLate :
    ∃ u, runs step (new (fun _ => 1) (fun _ => [])) closedLate = some u ∧
      (Along step TooLate (new (fun _ => 1) (fun _ => [])) closedLate → ¬ u.Idle) ∧
        (Silenced u.keepAlive ↔ ¬ Along step TooLate (new (fun _ => 1) (fun _ => [])) closedLate) := by
  have hrun : ∃ u, runs step (new (fun _ => 1) (fun _ => [])) closedLate = some u := ⟨_, rfl⟩
  obtain ⟨u, hu⟩ := hrun
  exact ⟨u, hu, keepAlive_iff _ _ hu⟩

end Driver

end CsiHttp.Client

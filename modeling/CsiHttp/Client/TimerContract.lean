import CsiHttp.Lib.Runs
import CsiHttp.Client.Transfers

/-!
# libcurl's timer

libcurl asks for one timeout at a time through `multi_timer_cb`: a positive value sets it, in
place of the one before, 0 stands for one that has passed already, and -1 deletes it. The client
has to call `curl_multi_socket_action` once when a timeout has passed, and at no other time.

The calls made from inside `curl_multi_socket_action` come after it in a sequence: nothing follows
it in `timer_cb`, and nothing follows `timer_cb` in `multi_timer_cb`.
-/
namespace CsiHttp.Client

open Lib Lib.Text Lib.Runs

inductive TimerEvent where
  /-- libcurl calls `multi_timer_cb`. -/
  | call (ms : Int)
  /-- The deadline of the timer passes. -/
  | expire
  /-- The queued completion `i` reaches `timer_cb`. -/
  | complete (i : Nat)
  deriving DecidableEq

/-- The timeout that libcurl has asked for, unless it has deleted it or been called for it. -/
inductive Timeout where
  | idle
  | waiting (ms : Nat)
  | due
  deriving DecidableEq

namespace Timeout

/-- What an event means to libcurl; `n` is how often it is called for a timeout. -/
def next (q : Timeout) (n : Nat) : TimerEvent → Timeout
  | .call ms => if 0 < ms then .waiting ms.toNat else .idle
  | .expire =>
    match q with
    | .idle => .idle
    | .waiting _ => .due
    | .due => .due
  | .complete _ => if n ≠ 0 ∧ q = .due then .idle else q

/-- How often libcurl expects to be called. -/
def Allows (q : Timeout) (n : Nat) : TimerEvent → Prop
  | .call ms => n = if ms = 0 then 1 else 0
  | .expire => n = 0
  | .complete _ => n = 0 ∨ n = 1 ∧ q = .due

instance (q : Timeout) (n : Nat) : (ev : TimerEvent) → Decidable (q.Allows n ev)
  | .call ms => inferInstanceAs (Decidable (n = if ms = 0 then 1 else 0))
  | .expire => inferInstanceAs (Decidable (n = 0))
  | .complete _ => inferInstanceAs (Decidable (n = 0 ∨ n = 1 ∧ q = .due))

end Timeout

namespace HttpClient

/-- How often `curl_multi_socket_action` has been called with `CURL_SOCKET_TIMEOUT`. -/
def actions (c : HttpClient) : Nat := c.log.count .timeoutAction

def deliver (c : HttpClient) : TimerEvent → Option HttpClient
  | .call ms => some (c.multiTimerCb ms)
  | .expire => if c.timer.pending ≠ [] then some { c with timer := c.timer.expire } else none
  | .complete i => (c.timer.dequeue i).map (fun x => timerCb { c with timer := x.2 } x.1.code)

/-- The completions on their way to `timer_cb` that are no aborts. -/
def successes (c : HttpClient) : Nat := c.timer.queued.countP (fun x => x.code == .success)

theorem actions_note (c : HttpClient) (o : Obs) :
    (c.note o).actions = c.actions + if o = .timeoutAction then 1 else 0 := by
  unfold actions note
  rw [List.count_append, List.count_singleton]
  simp only [beq_iff_eq]

theorem successes_cancel (c : HttpClient) :
    successes { c with timer := c.timer.cancel } = c.successes := by
  unfold successes
  rw [DeadlineTimer.cancel_queued, List.countP_append, List.countP_map]
  simp [Function.comp_def]

/-- `multi_timer_cb` for a positive value. -/
theorem multiTimerCb_pos (c : HttpClient) {ms : Int} (h : 0 < ms) :
    (c.multiTimerCb ms).timer.pending.length = 1 ∧
      (c.multiTimerCb ms).timer.expiry = ms.toNat ∧
      (c.multiTimerCb ms).successes = c.successes ∧ (c.multiTimerCb ms).actions = c.actions := by
  unfold multiTimerCb
  rw [if_pos h]
  refine ⟨rfl, rfl, ?_, rfl⟩
  refine Eq.trans ?_ (c.successes_cancel)
  simp [successes, DeadlineTimer.expiresFromNow, DeadlineTimer.asyncWait, DeadlineTimer.cancel,
    DeadlineTimer.complete]

/-- For 0 it cancels the timer and calls libcurl, and so it does for a negative value. -/
theorem multiTimerCb_nonpos (c : HttpClient) {ms : Int} (h : ¬ 0 < ms) :
    (c.multiTimerCb ms).timer.pending = [] ∧ (c.multiTimerCb ms).successes = c.successes ∧
      (c.multiTimerCb ms).actions = c.actions + 1 := by
  unfold multiTimerCb
  rw [if_neg h]
  exact ⟨rfl, c.successes_cancel, actions_note _ _⟩

theorem successes_expire (c : HttpClient) :
    successes { c with timer := c.timer.expire } = c.successes + c.timer.pending.length := by
  unfold successes
  rw [DeadlineTimer.expire_queued, List.countP_append, List.countP_map]
  simp [Function.comp_def]

/-- `timer_cb` calls libcurl unless its wait was aborted. -/
theorem complete_eq_some {c d : HttpClient} {i : Nat} (h : c.deliver (.complete i) = some d) :
    ∃ x, c.timer.queued[i]? = some x ∧ d.timer.pending = c.timer.pending ∧
      d.timer.expiry = c.timer.expiry ∧
      c.successes = d.successes + (if x.code = .success then 1 else 0) ∧
      d.actions = c.actions + if x.code = .success then 1 else 0 := by
  obtain ⟨⟨x, timer⟩, hx, hd⟩ := Option.map_eq_some_iff.mp h
  obtain ⟨hqueued, htimer⟩ := DeadlineTimer.dequeue_eq_some hx
  have hcount := DeadlineTimer.countP_dequeue (fun x => x.code == .success) hx
  simp only [beq_iff_eq] at hcount
  subst htimer
  subst hd
  refine ⟨x, hqueued, ?_⟩
  cases hcode : x.code with
  | success =>
    rw [hcode] at hcount
    exact ⟨rfl, rfl, hcount, actions_note _ _⟩
  | operationAborted =>
    rw [hcode] at hcount
    exact ⟨rfl, rfl, hcount, rfl⟩
  | failure =>
    rw [hcode] at hcount
    exact ⟨rfl, rfl, hcount, rfl⟩

end HttpClient

/-! ## The contract -/

/-- A client, and what libcurl has asked of it. -/
structure Timed where
  client : HttpClient
  timeout : Timeout

namespace Timed

/-- A client before its first request. -/
def start (method : Nat → Nat) (content : Nat → Bytes) : Timed := ⟨.new method content, .idle⟩

def step (s : Timed) (ev : TimerEvent) : Option Timed :=
  (s.client.deliver ev).map fun d =>
    ⟨d, s.timeout.next (d.actions - s.client.actions) ev⟩

/-- libcurl is called as often as it expects. -/
def Contract (s : Timed) (ev : TimerEvent) (t : Timed) : Prop :=
  s.timeout.Allows (t.client.actions - s.client.actions) ev

/-- One wait is pending for a timeout that has been asked for and has not passed, and no other; for
one that has passed the call of libcurl is on its way. -/
structure Armed (s : Timed) : Prop where
  single : s.client.timer.pending.length ≤ 1
  idle : s.timeout = .idle → s.client.timer.pending = []
  waiting : ∀ ms, s.timeout = .waiting ms →
    s.client.timer.pending ≠ [] ∧ s.client.timer.expiry = ms
  due : s.timeout = .due → s.client.timer.pending = [] ∧ 0 < s.client.successes

/-- libcurl is called for its timeouts, each of them once and in time, and for nothing else. -/
def Keeps (s : Timed) (es : List TimerEvent) : Prop :=
  Steps step Contract s es ∧ Throughout step Armed s es

/-- A call finds no completion on its way that an earlier call asked for, and is not made to delete
the timer. -/
def Punctual (s : Timed) : TimerEvent → Prop
  | .call ms => 0 ≤ ms ∧ ∀ x ∈ s.client.timer.queued, x.code ≠ .success
  | .expire => True
  | .complete _ => True

instance (s : Timed) : (ev : TimerEvent) → Decidable (s.Punctual ev)
  | .call _ => inferInstanceAs (Decidable (_ ∧ _))
  | .expire => isTrue trivial
  | .complete _ => isTrue trivial

theorem armed_start (method : Nat → Nat) (content : Nat → Bytes) : Armed (start method content) where
  single := Nat.zero_le 1
  idle _ := rfl
  waiting ms h := by cases h
  due h := by cases h

/-- Every event in turn: what it does to libcurl's timeout, to the waits and to the completions. -/
inductive Stepped (s : Timed) : TimerEvent → Timed → Prop where
  | armed (ms : Int) (t : Timed) (hms : 0 < ms) (htimeout : t.timeout = .waiting ms.toNat)
      (hpending : t.client.timer.pending.length = 1) (hexpiry : t.client.timer.expiry = ms.toNat)
      (hsuccesses : t.client.successes = s.client.successes)
      (hactions : t.client.actions = s.client.actions) : Stepped s (.call ms) t
  | called (ms : Int) (t : Timed) (hms : ¬ 0 < ms) (htimeout : t.timeout = .idle)
      (hpending : t.client.timer.pending = [])
      (hsuccesses : t.client.successes = s.client.successes)
      (hactions : t.client.actions = s.client.actions + 1) : Stepped s (.call ms) t
  | expired (ms : Nat) (t : Timed) (hwaiting : s.timeout = .waiting ms) (htimeout : t.timeout = .due)
      (hpending : t.client.timer.pending = [])
      (hsuccesses : t.client.successes = s.client.successes + 1)
      (hactions : t.client.actions = s.client.actions) : Stepped s .expire t
  | acted (i : Nat) (t : Timed)
      (htimeout : t.timeout = if s.timeout = .due then .idle else s.timeout)
      (hpending : t.client.timer.pending = s.client.timer.pending)
      (hexpiry : t.client.timer.expiry = s.client.timer.expiry)
      (hsuccesses : s.client.successes = t.client.successes + 1)
      (hactions : t.client.actions = s.client.actions + 1) : Stepped s (.complete i) t
  | aborted (i : Nat) (t : Timed) (htimeout : t.timeout = s.timeout)
      (hpending : t.client.timer.pending = s.client.timer.pending)
      (hexpiry : t.client.timer.expiry = s.client.timer.expiry)
      (hsuccesses : s.client.successes = t.client.successes)
      (hactions : t.client.actions = s.client.actions) : Stepped s (.complete i) t

variable {s t u : Timed} {ev : TimerEvent} {es : List TimerEvent}

theorem stepped_of_step (ha : Armed s) (h : s.step ev = some t) : Stepped s ev t := by
  obtain ⟨d, hd, rfl⟩ := Option.map_eq_some_iff.mp h
  cases ev with
  | call ms =>
    obtain rfl := Option.some.inj hd
    by_cases hms : 0 < ms
    · obtain ⟨hpending, hexpiry, hsuccesses, hactions⟩ := s.client.multiTimerCb_pos hms
      exact .armed ms _ hms (if_pos hms) hpending hexpiry hsuccesses hactions
    · obtain ⟨hpending, hsuccesses, hactions⟩ := s.client.multiTimerCb_nonpos hms
      exact .called ms _ hms (if_neg hms) hpending hsuccesses hactions
  | expire =>
    obtain ⟨hpending, hd⟩ := Option.ite_none_right_eq_some.mp hd
    obtain rfl := Option.some.inj hd
    cases hq : s.timeout with
    | idle => exact absurd (ha.idle hq) hpending
    | waiting ms =>
      have hone : s.client.timer.pending.length = 1 := by
        have hle := ha.single
        have hpos := List.length_pos_iff.mpr hpending
        omega
      refine .expired ms _ hq rfl rfl ?_ rfl
      exact s.client.successes_expire.trans (by rw [hone])
    | due => exact absurd (ha.due hq).1 hpending
  | complete i =>
    obtain ⟨x, -, hpending, hexpiry, hsuccesses, hactions⟩ := HttpClient.complete_eq_some hd
    by_cases hcode : x.code = .success
    · rw [if_pos hcode] at hsuccesses hactions
      refine .acted i _ ?_ hpending hexpiry hsuccesses hactions
      simp [Timeout.next, hactions]
    · rw [if_neg hcode] at hsuccesses hactions
      refine .aborted i _ ?_ hpending hexpiry hsuccesses hactions
      simp [Timeout.next, hactions]

theorem Armed.of_idle (hq : t.timeout = .idle) (hp : t.client.timer.pending = []) : Armed t where
  single := by rw [hp]; exact Nat.zero_le 1
  idle _ := hp
  waiting ms h := by rw [hq] at h; cases h
  due h := by rw [hq] at h; cases h

theorem Armed.of_waiting {ms : Nat} (hq : t.timeout = .waiting ms)
    (hp : t.client.timer.pending.length = 1) (he : t.client.timer.expiry = ms) : Armed t where
  single := Nat.le_of_eq hp
  idle h := by rw [hq] at h; cases h
  waiting ms' h := by
    rw [hq] at h
    obtain rfl := Timeout.waiting.inj h
    refine ⟨?_, he⟩
    apply List.length_pos_iff.mp
    omega
  due h := by rw [hq] at h; cases h

theorem Armed.of_due (hq : t.timeout = .due) (hp : t.client.timer.pending = [])
    (hs : 0 < t.client.successes) : Armed t where
  single := by rw [hp]; exact Nat.zero_le 1
  idle _ := hp
  waiting ms h := by rw [hq] at h; cases h
  due _ := ⟨hp, hs⟩

/-- At any time there is one wait at most, and it is for the timeout that libcurl has asked for. -/
theorem armed_step (ha : Armed s) (h : s.step ev = some t) : Armed t := by
  cases stepped_of_step ha h with
  | armed ms _ hms htimeout hpending hexpiry hsuccesses hactions =>
    exact .of_waiting htimeout hpending hexpiry
  | called ms _ hms htimeout hpending hsuccesses hactions => exact .of_idle htimeout hpending
  | expired ms _ hwaiting htimeout hpending hsuccesses hactions =>
    exact .of_due htimeout hpending (by omega)
  | acted i _ htimeout hpending hexpiry hsuccesses hactions =>
    by_cases hq : s.timeout = .due
    · rw [if_pos hq] at htimeout
      exact .of_idle htimeout (hpending.trans (ha.due hq).1)
    · rw [if_neg hq] at htimeout
      constructor
      · rw [hpending]
        exact ha.single
      · rw [htimeout, hpending]
        exact ha.idle
      · rw [htimeout, hpending, hexpiry]
        exact ha.waiting
      · intro hdue
        rw [htimeout] at hdue
        exact absurd hdue hq
  | aborted i _ htimeout hpending hexpiry hsuccesses hactions =>
    constructor
    · rw [hpending]
      exact ha.single
    · rw [htimeout, hpending]
      exact ha.idle
    · rw [htimeout, hpending, hexpiry]
      exact ha.waiting
    · rw [htimeout, hpending, ← hsuccesses]
      exact ha.due

theorem armed_throughout (ha : Armed s) (es : List TimerEvent) : Throughout step Armed s es :=
  throughout_of_step (fun _ h => h) (fun _ _ _ hv _ hw => armed_step hv hw) ha
    (along_of_forall (fun _ _ => trivial) s es)

/-! ## Runs that keep it -/

/-- The calls that libcurl is waiting for. -/
def owed (s : Timed) : Nat := if s.timeout = .due then 1 else 0

theorem successes_eq_zero (c : HttpClient) :
    c.successes = 0 ↔ ∀ x ∈ c.timer.queued, x.code ≠ .success := by
  unfold HttpClient.successes
  rw [List.countP_eq_zero]
  simp only [beq_iff_eq]

/-- As long as every call is punctual, the completions on their way are the calls that libcurl is
waiting for. -/
theorem prompt_step (ha : Armed s) (hs : s.client.successes = s.owed) (hp : Punctual s ev)
    (h : s.step ev = some t) : t.client.successes = t.owed ∧ Contract s ev t := by
  unfold owed at hs ⊢
  unfold Contract
  cases stepped_of_step ha h with
  | armed ms _ hms htimeout hpending hexpiry hsuccesses hactions =>
    have hzero := (successes_eq_zero s.client).mpr hp.2
    rw [htimeout, hactions, hsuccesses, hzero]
    refine ⟨rfl, ?_⟩
    rw [Nat.sub_self, Timeout.Allows, if_neg (by omega)]
  | called ms _ hms htimeout hpending hsuccesses hactions =>
    have hzero := (successes_eq_zero s.client).mpr hp.2
    have hnonneg : 0 ≤ ms := hp.1
    rw [htimeout, hactions, hsuccesses, hzero]
    refine ⟨rfl, ?_⟩
    rw [Nat.add_sub_cancel_left, Timeout.Allows, if_pos (by omega)]
  | expired ms _ hwaiting htimeout hpending hsuccesses hactions =>
    rw [hwaiting, if_neg (by simp)] at hs
    rw [htimeout, hactions, hsuccesses, hs, Nat.sub_self]
    exact ⟨rfl, rfl⟩
  | acted i _ htimeout hpending hexpiry hsuccesses hactions =>
    have hdue : s.timeout = .due := by
      by_contra hq
      rw [if_neg hq] at hs
      omega
    rw [if_pos hdue] at hs htimeout
    rw [htimeout, hactions, Nat.add_sub_cancel_left]
    refine ⟨?_, Or.inr ⟨rfl, hdue⟩⟩
    rw [if_neg (by decide)]
    omega
  | aborted i _ htimeout hpending hexpiry hsuccesses hactions =>
    rw [htimeout, hactions, ← hsuccesses, hs, Nat.sub_self]
    exact ⟨rfl, Or.inl rfl⟩

/-- A completion too many is never made up for by what the contract allows. -/
theorem stray_step (ha : Armed s) (hs : s.owed < s.client.successes) (h : s.step ev = some t)
    (hc : Contract s ev t) : t.owed < t.client.successes := by
  unfold owed at hs ⊢
  cases stepped_of_step ha h with
  | armed ms _ hms htimeout hpending hexpiry hsuccesses hactions =>
    rw [htimeout, if_neg (by simp)]
    omega
  | called ms _ hms htimeout hpending hsuccesses hactions =>
    rw [htimeout, if_neg (by simp)]
    omega
  | expired ms _ hwaiting htimeout hpending hsuccesses hactions =>
    rw [htimeout, if_pos rfl]
    omega
  | acted i _ htimeout hpending hexpiry hsuccesses hactions =>
    unfold Contract at hc
    rw [hactions, Nat.add_sub_cancel_left] at hc
    cases hc with
    | inl hnone => exact absurd hnone (by decide)
    | inr hone =>
      rw [if_pos hone.2] at hs htimeout
      rw [htimeout, if_neg (by simp)]
      omega
  | aborted i _ htimeout hpending hexpiry hsuccesses hactions =>
    rw [htimeout, ← hsuccesses]
    exact hs

/-- A call that is not punctual is one that libcurl does not expect, or it leaves behind a
completion that no timeout accounts for. -/
theorem stray_of_not_punctual (ha : Armed s) (hp : ¬ Punctual s ev) (h : s.step ev = some t)
    (hc : Contract s ev t) : t.owed < t.client.successes := by
  unfold owed
  unfold Contract at hc
  cases stepped_of_step ha h with
  | armed ms _ hms htimeout hpending hexpiry hsuccesses hactions =>
    have hpos : s.client.successes ≠ 0 := by
      intro hzero
      exact hp ⟨by omega, (successes_eq_zero s.client).mp hzero⟩
    rw [htimeout, if_neg (by simp)]
    omega
  | called ms _ hms htimeout hpending hsuccesses hactions =>
    have hzero : ms = 0 := by
      by_contra hne
      rw [hactions, Nat.add_sub_cancel_left, Timeout.Allows, if_neg hne] at hc
      exact absurd hc (by decide)
    have hpos : s.client.successes ≠ 0 := by
      intro hnone
      exact hp ⟨by omega, (successes_eq_zero s.client).mp hnone⟩
    rw [htimeout, if_neg (by simp)]
    omega
  | expired ms _ hwaiting htimeout hpending hsuccesses hactions => exact absurd trivial hp
  | acted i _ htimeout hpending hexpiry hsuccesses hactions => exact absurd trivial hp
  | aborted i _ htimeout hpending hexpiry hsuccesses hactions => exact absurd trivial hp

theorem punctual_or_stray (ha : Armed s) (hc : Steps step Contract s es)
    (h : runs step s es = some u) : Along step Punctual s es ∨ u.owed < u.client.successes := by
  induction es generalizing s with
  | nil => exact Or.inl trivial
  | cons ev es ih =>
    obtain ⟨t, ht, hu⟩ := runs_cons_iff.mp h
    obtain ⟨hstep, hsteps⟩ := (along_cons ht).mp hc
    have hat := armed_step ha ht
    by_cases hp : Punctual s ev
    · cases ih hat hsteps hu with
      | inl hpunctual => exact Or.inl ((along_cons ht).mpr ⟨hp, hpunctual⟩)
      | inr hstray => exact Or.inr hstray
    · right
      have hstray := stray_of_not_punctual ha hp ht (hstep t ht)
      exact (invariant (I := fun v => Armed v ∧ v.owed < v.client.successes)
        (fun v ev w hv hcv hw => ⟨armed_step hv.1 hw, stray_step hv.1 hv.2 hw (hcv w hw)⟩)
        ⟨hat, hstray⟩ hsteps hu).2

/-- A completion on its way can run next. -/
theorem exists_complete (hs : 0 < s.client.successes) :
    ∃ i t, s.step (.complete i) = some t ∧ t.client.actions = s.client.actions + 1 ∧
      s.client.successes = t.client.successes + 1 ∧
      t.timeout = if s.timeout = .due then .idle else s.timeout := by
  obtain ⟨x, hx, hcode⟩ := List.countP_pos_iff.mp hs
  obtain ⟨i, hi⟩ := List.mem_iff_getElem?.mp hx
  obtain ⟨d, hd⟩ : ∃ d, s.client.deliver (.complete i) = some d := by
    rw [HttpClient.deliver, DeadlineTimer.dequeue, hi]
    exact ⟨_, rfl⟩
  obtain ⟨x', hx', -, -, hsuccesses, hactions⟩ := HttpClient.complete_eq_some hd
  obtain rfl := Option.some.inj (hi.symm.trans hx')
  rw [if_pos (beq_iff_eq.mp hcode)] at hsuccesses hactions
  refine ⟨i, ⟨d, s.timeout.next (d.actions - s.client.actions) (.complete i)⟩, ?_, hactions,
    hsuccesses, ?_⟩
  · rw [step, hd]
    rfl
  · simp [Timeout.next, hactions]

/-- When the completions on their way run, one that no timeout accounts for calls libcurl against
the contract. -/
theorem not_kept_of_stray (hs : s.owed < s.client.successes) :
    ∃ fs : List TimerEvent, (∀ ev ∈ fs, ∃ i, ev = .complete i) ∧ ¬ Steps step Contract s fs := by
  obtain ⟨i, t, ht, hactions, hsuccesses, htimeout⟩ := exists_complete (s := s) (by omega)
  unfold owed at hs
  by_cases hq : s.timeout = .due
  · rw [if_pos hq] at hs htimeout
    obtain ⟨j, v, hv, hactions', -, -⟩ := exists_complete (s := t) (by omega)
    refine ⟨[.complete i, .complete j], ?_, ?_⟩
    · simp
    · intro hc
      have hsecond := ((along_cons ht).mp hc).2.1 v hv
      unfold Contract at hsecond
      rw [hactions', Nat.add_sub_cancel_left, htimeout] at hsecond
      exact absurd hsecond (by simp [Timeout.Allows])
  · refine ⟨[.complete i], ?_, ?_⟩
    · simp
    · intro hc
      have hfirst := hc.1 t ht
      unfold Contract at hfirst
      rw [hactions, Nat.add_sub_cancel_left] at hfirst
      cases hfirst with
      | inl hnone => exact absurd hnone (by decide)
      | inr hone => exact hq hone.2

theorem keeps_of_punctual (ha : Armed s) (hs : s.client.successes = s.owed)
    (hp : Along step Punctual s es) : Keeps s es := by
  refine ⟨?_, armed_throughout ha es⟩
  refine steps_of_step (I := fun v => Armed v ∧ v.client.successes = v.owed) ?_ ⟨ha, hs⟩ hp
  intro v ev w hv hpv hw
  obtain ⟨hsuccesses, hcontract⟩ := prompt_step hv.1 hv.2 hpv hw
  exact ⟨⟨armed_step hv.1 hw, hsuccesses⟩, hcontract⟩

theorem punctual_completes {fs : List TimerEvent} (hfs : ∀ ev ∈ fs, ∃ i, ev = .complete i)
    (s : Timed) : Along step Punctual s fs := by
  induction fs generalizing s with
  | nil => trivial
  | cons ev fs ih =>
    obtain ⟨hev, hrest⟩ := List.forall_mem_cons.mp hfs
    obtain ⟨i, rfl⟩ := hev
    exact ⟨trivial, fun t _ => ih hrest t⟩

/-- The client keeps libcurl's timer contract in every run in which no call deletes the timer or
comes while a completion of an earlier timeout is on its way. A run that keeps it, however the
completions on their way run after it, is one of these. -/
theorem keeps_iff_punctual (method : Nat → Nat) (content : Nat → Bytes) (es : List TimerEvent) :
    (Along step Punctual (start method content) es → Keeps (start method content) es) ∧
    ∀ u, runs step (start method content) es = some u →
      ((∀ fs : List TimerEvent, (∀ ev ∈ fs, ∃ i, ev = .complete i) →
          Keeps (start method content) (es ++ fs)) ↔
        Along step Punctual (start method content) es) := by
  have ha := armed_start method content
  refine ⟨keeps_of_punctual ha rfl, ?_⟩
  intro u hu
  constructor
  · intro hkeeps
    have hes := (hkeeps [] (by simp)).1
    rw [List.append_nil] at hes
    refine (punctual_or_stray ha hes hu).resolve_right ?_
    intro hstray
    obtain ⟨fs, hfs, hbroken⟩ := not_kept_of_stray hstray
    exact hbroken ((along_append hu).mp (hkeeps fs hfs).1).2
  · intro hp fs hfs
    exact keeps_of_punctual ha rfl ((along_append hu).mpr ⟨hp, punctual_completes hfs u⟩)

/-- A timeout passes, and libcurl asks for a new one when it is called. -/
def elapsed : List TimerEvent := [.call 100, .expire, .complete 0, .call 200, .call 0]

theorem keeps_iff_punctual_elapsed :
    Keeps (start (fun _ => 1) (fun _ => [])) elapsed ∧
      ∃ u, runs step (start (fun _ => 1) (fun _ => [])) elapsed = some u ∧
        ∀ fs : List TimerEvent, (∀ ev ∈ fs, ∃ i, ev = .complete i) →
          Keeps (start (fun _ => 1) (fun _ => [])) (elapsed ++ fs) := by
  obtain ⟨hkeeps, hiff⟩ := keeps_iff_punctual (fun _ => 1) (fun _ => []) elapsed
  have hp : Along step Punctual (start (fun _ => 1) (fun _ => [])) elapsed := by decide
  exact ⟨hkeeps hp, _, rfl, (hiff _ rfl).mpr hp⟩

/-- A call with -1 calls libcurl at once, and a completion that was on its way when libcurl replaced
its timeout calls libcurl before the new one has passed. -/
theorem deletion_not_kept :
    ¬ Keeps (start (fun _ => 1) (fun _ => [])) [.call (-1)] ∧
      ¬ Keeps (start (fun _ => 1) (fun _ => []))
        [.call 100, .expire, .call 200, .complete 0] := by
  constructor
  · intro h
    have hcall : Timeout.idle.Allows 1 (.call (-1)) := h.1.1 _ rfl
    exact absurd hcall (by decide)
  · intro h
    have hcomplete : (Timeout.waiting 200).Allows 1 (.complete 0) :=
      (((h.1.2 _ rfl).2 _ rfl).2 _ rfl).1 _ rfl
    exact absurd hcomplete (by decide)

end Timed

/-! ## The timer of a client -/

namespace HttpClient

variable {b c d : HttpClient}

/-- The timer and the calls of libcurl for timeouts. -/
def timing (c : HttpClient) : DeadlineTimer Unit × Nat := (c.timer, c.actions)

theorem timing_note {o : Obs} (c : HttpClient) (ho : o ≠ .timeoutAction) :
    (c.note o).timing = c.timing := by
  have hactions := c.actions_note o
  rw [if_neg ho] at hactions
  exact Prod.ext rfl hactions

theorem timing_opensocketCb (c : HttpClient) (supported opened : Bool) (s : Nat) :
    (c.opensocketCb supported opened s).timing = c.timing := by
  unfold opensocketCb
  split
  · exact timing_note _ (by simp)
  · rfl

theorem timing_closesocketCb (c : HttpClient) (s : Nat) : (c.closesocketCb s).timing = c.timing := by
  have hnote := c.timing_note (o := .closed s) (by simp)
  unfold closesocketCb
  dsimp only
  split
  · exact hnote
  · exact hnote

theorem timing_watch (c : HttpClient) (o h : Nat) (output : Bool) :
    (c.watch o h output).timing = c.timing := by
  unfold watch
  split
  · split
    · rfl
    · rfl
  · rfl

theorem timing_removal (h : Nat) : KeptByRemoval h (fun c d => d.timing = c.timing) where
  refl _ := rfl
  trans hcd hde := hde.trans hcd
  performAsync _ _ := rfl
  called c := c.timing_note (by simp)
  storeResult _ := rfl
  curlStop _ := rfl
  posted _ := rfl

theorem timing_polled (c : HttpClient) (h o : Nat) (what : Poll) (again : List Nat) :
    (c.polled h o what again).timing = c.timing := by
  cases what with
  | pollIn => exact timing_watch c o h false
  | pollOut => exact timing_watch c o h true
  | pollInOut => exact (timing_watch _ o h true).trans (timing_watch c o h false)
  | pollRemove => exact (timing_removal h).pollRemoved c again

theorem timing_sockCb (c : HttpClient) (h s : Nat) (what : Poll) (again : List Nat) :
    (c.sockCb h s what again).timing = c.timing := by
  have hnote := c.timing_note
    (o := .sock h s what ((c.contexts h).curlPrivate && (c.contexts h).curlShared)) (by simp)
  unfold sockCb
  dsimp only
  split
  · split
    · exact hnote
    · exact (timing_polled _ h _ what again).trans hnote
  · exact hnote

/-- The timer of `d` is that of `c` after some timer events. -/
def Delivers (c d : HttpClient) : Prop :=
  ∃ es b, runs deliver c es = some b ∧ b.timing = d.timing

theorem Delivers.of_timing (h : d.timing = c.timing) : Delivers c d := ⟨[], c, rfl, h.symm⟩

theorem Delivers.of_deliver (ev : TimerEvent) (h : c.deliver ev = some d) : Delivers c d :=
  ⟨[ev], d, runs_cons_iff.mpr ⟨d, h, rfl⟩, rfl⟩

theorem timing_timerCb (c : HttpClient) (e : ErrorCode) :
    (c.timerCb e).timing = (c.timer, c.actions + if e = .success then 1 else 0) := by
  cases e with
  | success => exact Prod.ext rfl (c.actions_note _)
  | operationAborted => rfl
  | failure => rfl

theorem timing_multiTimerCb (c : HttpClient) (ms : Int) : (c.multiTimerCb ms).timing =
    if 0 < ms then ((c.timer.cancel.expiresFromNow ms.toNat).asyncWait (), c.actions)
    else (c.timer.cancel, c.actions + 1) := by
  unfold multiTimerCb
  split
  · rfl
  · exact timing_timerCb _ _

/-- The events of the timer see nothing else of the client. -/
theorem deliver_timing {ev : TimerEvent} (h : c.timing = d.timing) (hb : c.deliver ev = some b) :
    ∃ e, d.deliver ev = some e ∧ b.timing = e.timing := by
  obtain ⟨htimer, hactions⟩ := Prod.mk.inj h
  cases ev with
  | call ms =>
    obtain rfl := Option.some.inj hb
    refine ⟨_, rfl, ?_⟩
    rw [timing_multiTimerCb, timing_multiTimerCb, htimer, hactions]
  | expire =>
    obtain ⟨hpending, hb⟩ := Option.ite_none_right_eq_some.mp hb
    obtain rfl := Option.some.inj hb
    rw [htimer] at hpending
    refine ⟨_, if_pos hpending, ?_⟩
    exact Prod.ext (congrArg DeadlineTimer.expire htimer) hactions
  | complete i =>
    obtain ⟨x, hx, rfl⟩ := Option.map_eq_some_iff.mp hb
    rw [htimer] at hx
    refine ⟨_, Option.map_eq_some_iff.mpr ⟨x, hx, rfl⟩, ?_⟩
    rw [timing_timerCb, timing_timerCb]
    exact Prod.ext rfl (congrArg (· + _) hactions)

theorem runs_timing {es : List TimerEvent} (h : c.timing = d.timing)
    (hb : runs deliver c es = some b) : ∃ e, runs deliver d es = some e ∧ b.timing = e.timing := by
  induction es generalizing c d with
  | nil =>
    obtain rfl := Option.some.inj hb
    exact ⟨d, rfl, h⟩
  | cons ev es ih =>
    obtain ⟨c', hc', hb⟩ := runs_cons_iff.mp hb
    obtain ⟨d', hd', h'⟩ := deliver_timing h hc'
    obtain ⟨e, he, hbe⟩ := ih h' hb
    exact ⟨e, runs_cons_iff.mpr ⟨d', hd', he⟩, hbe⟩

theorem Delivers.trans (h : Delivers b c) (h' : Delivers c d) : Delivers b d := by
  obtain ⟨es, c', hc', htiming⟩ := h
  obtain ⟨fs, d', hd', htiming'⟩ := h'
  obtain ⟨e, he, hde⟩ := runs_timing htiming.symm hd'
  exact ⟨es ++ fs, e, runs_append_iff.mpr ⟨c', hc', he⟩, hde.symm.trans htiming'⟩

theorem delivers_act {a : CurlAct} (h : c.act a = some d) : Delivers c d := by
  cases acted_of_act h with
  | opensocket supported opened s hfree => exact .of_timing (timing_opensocketCb c supported opened s)
  | closesocket s => exact .of_timing (timing_closesocketCb c s)
  | sockCb h' s what again hadd =>
    apply Delivers.of_timing
    split
    · exact timing_sockCb c h' s what again
    · exact timing_sockCb c h' s what again
  | multiTimer ms => exact .of_deliver (.call ms) rfl
  | response h' code hb => exact .of_timing (timing_note _ (by simp))
  | read h' n hb => exact .of_timing rfl
  | header h' line hb => exact .of_timing (timing_note _ (by simp))
  | write h' data hb => exact .of_timing (timing_note _ (by simp))
  | finish h' hb => exact .of_timing (timing_note _ (by simp))

theorem delivers_acts {as : List CurlAct} (h : c.acts as = some d) : Delivers c d := by
  induction as generalizing c with
  | nil =>
    obtain rfl := Option.some.inj h
    exact .of_timing rfl
  | cons a as ih =>
    rw [acts] at h
    split at h
    · obtain rfl := Option.some.inj h
      exact .of_timing rfl
    · obtain ⟨b, hb, hd⟩ := Option.bind_eq_some_iff.mp h
      exact (delivers_act hb).trans (ih hd)

theorem delivers_socketCb {w : Watch} {e : ErrorCode} {as : List CurlAct}
    (h : c.socketCb w e as = some d) : Delivers c d := by
  cases socketCalled_of_socketCb h with
  | ignored hskip has => exact .of_timing rfl
  | dangling he hw has => exact .of_timing rfl
  | stopped _ he hb hstop => exact delivers_acts hb
  | watched b he hb hgo => exact (delivers_acts hb).trans (.of_timing (timing_watch b _ _ _))

/-- A handler reaches the timer through libcurl alone. -/
theorem delivers_run {accepted : Bool} {as : List CurlAct} {w : Work}
    (h : c.run accepted as w = some d) : Delivers c d := by
  cases w with
  | perform h' =>
    cases performed_of_perform h with
    | started _ hd =>
      have hbegin : Delivers c
          (note { (c.curlStart h').setPrivate h' with curl := c.curl.add h' } (.started h')) :=
        .of_timing (timing_note _ (by simp))
      exact hbegin.trans (delivers_acts hd)
    | refused has => exact .of_timing (timing_note ((c.curlStart h').setPrivate h') (by simp))
    | unsupported has => exact .of_timing rfl
  | pollRemove h' =>
    cases pollRemoved_of_pollRemove h with
    | unknown has => exact .of_timing rfl
    | crashed _ hb hf => exact delivers_acts hb
    | removed b hb hf =>
      exact (delivers_acts hb).trans
        (.of_timing (timing_note { b with curl := b.curl.remove h' } (by simp)))
  | deleteSocket o =>
    obtain ⟨rfl, -⟩ := noActs_eq_some h
    exact .of_timing rfl
  | socketCb w e =>
    have hread : (c.noteReadable w e).timing = c.timing := by
      unfold noteReadable
      split
      · exact timing_note _ (by simp)
      · rfl
    exact (Delivers.of_timing hread).trans (delivers_socketCb h)

theorem delivers_step {ev : Event} (h : c.step ev = some d) : Delivers c d := by
  cases (stepped_of_step h).2 with
  | performAsync h' => exact .of_timing rfl
  | ready i w hw => exact .of_timing rfl
  | expire hp => exact .of_deliver .expire (if_pos hp)
  | timeout i as x timer _ hx hcode hd =>
    have hcomplete : c.deliver (.complete i) = some (timerCb { c with timer := timer } x.code) :=
      Option.map_eq_some_iff.mpr ⟨(x, timer), hx, rfl⟩
    exact (Delivers.of_deliver _ hcomplete).trans (delivers_acts hd)
  | aborted i x timer hx hcode =>
    exact .of_deliver (.complete i) (Option.map_eq_some_iff.mpr ⟨(x, timer), hx, rfl⟩)
  | run i accepted as x _ hx hd =>
    have htaken : Delivers c { c with queue := c.queue.eraseIdx i } := .of_timing rfl
    exact htaken.trans (delivers_run hd)

/-- What libcurl has asked for follows from the events. -/
theorem exists_timed {es : List TimerEvent} (q : Timeout) (h : runs deliver c es = some d) :
    ∃ q', runs Timed.step ⟨c, q⟩ es = some ⟨d, q'⟩ := by
  induction es generalizing c q with
  | nil =>
    obtain rfl := Option.some.inj h
    exact ⟨q, rfl⟩
  | cons ev es ih =>
    obtain ⟨b, hb, hd⟩ := runs_cons_iff.mp h
    obtain ⟨q', hq'⟩ := ih (q.next (b.actions - c.actions) ev) hd
    exact ⟨q', runs_cons_iff.mpr ⟨_, Option.map_eq_some_iff.mpr ⟨b, hb, rfl⟩, hq'⟩⟩

/-- Every run of a client is, for its timer, a sequence of calls and completions, so at most one
wait is ever pending. -/
theorem timer_of_runs (method : Nat → Nat) (content : Nat → Bytes) {es : List Event}
    (h : runs step (new method content) es = some d) :
    (∃ fs t, runs Timed.step (.start method content) fs = some t ∧
      t.client.timing = d.timing) ∧ d.timer.pending.length ≤ 1 := by
  have hdelivers : Delivers (new method content) d :=
    invariant (I := fun c => Delivers (new method content) c) (D := fun _ _ => True)
      (fun _ _ _ hc _ hstep => hc.trans (delivers_step hstep)) (.of_timing rfl)
      (along_of_forall (fun _ _ => trivial) _ _) h
  obtain ⟨fs, b, hb, htiming⟩ := hdelivers
  obtain ⟨q, hq⟩ := exists_timed .idle hb
  have harmed := (Timed.armed_throughout (Timed.armed_start method content) fs).last hq
  refine ⟨⟨fs, _, hq, htiming⟩, ?_⟩
  have htimer : b.timer = d.timer := congrArg Prod.fst htiming
  rw [← htimer]
  exact harmed.single

end HttpClient

end CsiHttp.Client

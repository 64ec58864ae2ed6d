import CsiHttp.Lib.Runs
import CsiHttp.Server.Stages
import CsiHttp.Server.TableParser

/-!
# Deferred replies on `https_connection`

`handle_read` arms the timer again after the handler has deferred its reply, which aborts
the wait for the reply and queues `handle_async_call`. The exchange stays orderly exactly
as long as this call does not run before the handler has notified.
-/
namespace CsiHttp.Server

open Lib Lib.Text Lib.Runs

/-! ## Waits for the reply -/

def Waiter.isAsyncCall : Waiter → Bool
  | .handleAsyncCall => true
  | .handleTimer => false

/-- Waits for a deferred reply, pending or queued. -/
def asyncCalls (m : DeadlineTimer Waiter) : Nat :=
  m.pending.countP (fun w => w.handler.isAsyncCall) +
    m.queued.countP (fun c => c.wait.handler.isAsyncCall)

/-- Queued calls of `handle_async_call` that will take the reply to be ready. -/
def abortedCalls (m : DeadlineTimer Waiter) : Nat :=
  m.queued.countP (fun c => c.wait.handler.isAsyncCall && c.code == .operationAborted)

/-- No deadline has passed while a handler was waited for. -/
def InTime (m : DeadlineTimer Waiter) : Prop :=
  ∀ c ∈ m.queued, c.wait.handler = .handleAsyncCall → c.code = .operationAborted

theorem asyncCalls_complete (m : DeadlineTimer Waiter) (e : ErrorCode) :
    asyncCalls (m.complete e) = asyncCalls m := by
  change 0 + (m.queued ++ m.pending.map _).countP _ = _
  rw [List.countP_append, List.countP_map, Nat.zero_add, Nat.add_comm]
  rfl

theorem asyncCalls_asyncWait (m : DeadlineTimer Waiter) (h : Waiter) :
    asyncCalls (m.asyncWait h) = asyncCalls m + if h.isAsyncCall then 1 else 0 := by
  change (m.pending ++ [_]).countP _ + _ = _
  rw [List.countP_append, List.countP_singleton]
  exact Nat.add_right_comm _ _ _

theorem asyncCalls_rearm (m : DeadlineTimer Waiter) (ms : Nat) (h : Waiter) :
    asyncCalls ((m.expiresFromNow ms).asyncWait h) = asyncCalls m + if h.isAsyncCall then 1 else 0 := by
  rw [asyncCalls_asyncWait]
  exact congrArg (· + _) (asyncCalls_complete m .operationAborted)

theorem asyncCalls_dequeue {m m' : DeadlineTimer Waiter} {i : Nat} {c : Completion Waiter}
    (h : m.dequeue i = some (c, m')) :
    asyncCalls m = asyncCalls m' + if c.wait.handler.isAsyncCall then 1 else 0 := by
  have hcount := DeadlineTimer.countP_dequeue (fun c => c.wait.handler.isAsyncCall) h
  obtain ⟨-, rfl⟩ := DeadlineTimer.dequeue_eq_some h
  unfold asyncCalls
  rw [hcount, Nat.add_assoc]

theorem noAsyncCall_of_count {m : DeadlineTimer Waiter} (h : asyncCalls m = 0) : NoAsyncCall m := by
  obtain ⟨hp, hq⟩ := Nat.add_eq_zero_iff.mp h
  rw [List.countP_eq_zero] at hp hq
  have hwaiter : ∀ w : Waiter, ¬ w.isAsyncCall = true → w = .handleTimer := by
    intro w hw
    cases w with
    | handleTimer => rfl
    | handleAsyncCall => exact absurd rfl hw
  exact ⟨fun w hw => hwaiter _ (hp w hw), fun c hc => hwaiter _ (hq c hc)⟩

theorem NoAsyncCall.inTime {m : DeadlineTimer Waiter} (h : NoAsyncCall m) : InTime m := by
  intro c hc hw
  rw [h.2 c hc] at hw
  cases hw

theorem inTime_cancel {m : DeadlineTimer Waiter} (h : InTime m) : InTime m.cancel := by
  intro c hc hw
  rw [DeadlineTimer.cancel_queued] at hc
  rcases List.mem_append.mp hc with hc | hc
  · exact h c hc hw
  · obtain ⟨w, -, rfl⟩ := List.mem_map.mp hc
    rfl

/-- The waits of the timer between two events: those for a reply have all been aborted. -/
structure Rearmed (m : DeadlineTimer Waiter) : Prop where
  pending : ∀ w ∈ m.pending, w.handler = .handleTimer
  inTime : InTime m

theorem NoAsyncCall.rearmed {m : DeadlineTimer Waiter} (h : NoAsyncCall m) : Rearmed m :=
  ⟨h.1, h.inTime⟩

theorem rearmed_arm {m : DeadlineTimer Waiter} (h : InTime m) (ms : Nat) :
    Rearmed ((m.expiresFromNow ms).asyncWait .handleTimer) := by
  refine ⟨fun w hw => ?_, inTime_cancel h⟩
  obtain rfl := List.mem_singleton.mp hw
  rfl

theorem rearmed_cancel {m : DeadlineTimer Waiter} (h : InTime m) : Rearmed m.cancel :=
  ⟨List.forall_mem_nil _, inTime_cancel h⟩

theorem rearmed_expire {m : DeadlineTimer Waiter} (h : Rearmed m) : Rearmed m.expire := by
  refine ⟨List.forall_mem_nil _, fun c hc hw => ?_⟩
  rw [DeadlineTimer.expire_queued] at hc
  rcases List.mem_append.mp hc with hc | hc
  · exact h.inTime c hc hw
  · obtain ⟨w, hmem, rfl⟩ := List.mem_map.mp hc
    exact absurd ((h.pending w hmem).symm.trans hw) Waiter.noConfusion

theorem rearmed_dequeue {m m' : DeadlineTimer Waiter} {i : Nat} {c : Completion Waiter}
    (h : Rearmed m) (hd : m.dequeue i = some (c, m')) :
    Rearmed m' ∧ (c.wait.handler = .handleAsyncCall → c.code = .operationAborted) := by
  obtain ⟨hc, rfl⟩ := DeadlineTimer.dequeue_eq_some hd
  refine ⟨⟨h.pending, fun c' hc' => h.inTime c' (List.mem_of_mem_eraseIdx hc')⟩, ?_⟩
  exact h.inTime c (List.mem_of_getElem? hc)

/-- Between two events the waits for a reply are all on their way to send it. -/
theorem Rearmed.abortedCalls_eq {m : DeadlineTimer Waiter} (h : Rearmed m) :
    abortedCalls m = asyncCalls m := by
  have hp : m.pending.countP (fun w => w.handler.isAsyncCall) = 0 := by
    rw [List.countP_eq_zero]
    intro w hw
    rw [h.pending w hw]
    exact Bool.false_ne_true
  have hq : ∀ c ∈ m.queued, (c.wait.handler.isAsyncCall && c.code == .operationAborted) = true ↔
      c.wait.handler.isAsyncCall = true := by
    intro c hc
    rw [Bool.and_eq_true]
    refine ⟨And.left, fun hcall => ⟨hcall, beq_iff_eq.mpr (h.inTime c hc ?_)⟩⟩
    cases hw : c.wait.handler with
    | handleAsyncCall => rfl
    | handleTimer =>
      rw [hw] at hcall
      cases hcall
  unfold asyncCalls abortedCalls
  rw [hp, Nat.zero_add]
  exact List.countP_congr hq

namespace HttpsConnection

section Handlers

variable {State : Type} {s t : Session State}

/-- What this transport counts: a handshake ends in a read, and an aborted wait for the
reply in a call of `send_reply`. -/
def starting (s : Session State) : Nat := s.reads + s.handshakes

def awaited (s : Session State) : Nat := asyncCalls s.timer

theorem counting (E : Externals) : Counting 1 starting awaited (async E : AsyncReply State) where
  same s t hr _ hh ht := by
    unfold starting awaited
    rw [hr, hh, ht]
    exact ⟨rfl, rfl⟩
  rearm s ms := ⟨rfl, asyncCalls_rearm s.timer ms .handleTimer⟩
  startRead s := ⟨Nat.add_right_comm _ _ _, rfl⟩
  wait s := ⟨rfl, asyncCalls_rearm s.timer 3660000 .handleAsyncCall⟩
  notify s := ⟨rfl, congrArg (· + 1) (asyncCalls_complete s.timer .operationAborted)⟩
  waits _ := ⟨rfl, rfl, rfl⟩
  notifies s := ⟨⟨_, List.append_assoc s.log [_] [_]⟩, rfl, rfl, rfl⟩

theorem gentle (E : Externals) :
    Gentle (fun s : Session State => s.requestUuid E Request.defaultIdHeader) :=
  ⟨fun _ => rfl, fun _ => rfl, fun _ => rfl, fun _ => rfl, fun _ => rfl, fun _ => rfl,
    fun _ => rfl, fun _ => rfl⟩

/-- The invariant of a run. -/
structure Settled (s : Session State) : Prop where
  settled : Server.Settled 1 starting awaited s
  timer : s.fault = none → Rearmed s.timer

/-- Unless a reply is awaited no wait for one is left. -/
theorem rearmed_of_due (h : awaited s = 0) : Rearmed s.timer := (noAsyncCall_of_count h).rearmed

/-! ### The timer while a handler runs -/

variable {E : Externals}

theorem inTime_kept :
    Session.Kept E (fun s t : Session State => InTime s.timer → InTime t.timer) where
  refl _ := id
  trans h h' := h' ∘ h
  crash _ _ := id
  setReply _ _ := id
  requestId _ _ := id
  idLogged _ := id
  methodLogged _ := id

theorem inTime_handlerOps (h : InTime s.timer) (ops : List HandlerOp) :
    InTime (s.handlerOps E (async E) ops).timer :=
  inTime_kept.handlerOps (fun _ => inTime_cancel) (fun _ => inTime_cancel) s (fun _ _ _ => id) h

/-- `handle_read` arms the timer again when the reply has been deferred; otherwise no wait
for a reply has been started. -/
theorem dispatch_rearmed {prepare : Session State → Session State} (hp : Gentle prepare)
    {ops : List HandlerOp} (hops : (Deferral.asked.follow ops).isSome)
    (h : Free s (starting s) (awaited s)) :
    (s.dispatch E (async E) prepare ops).fault = none →
      Rearmed (s.dispatch E (async E) prepare ops).timer := by
  obtain ⟨d, hd⟩ := Option.isSome_iff_exists.mp hops
  have htime : InTime ((prepare s).logRequest E).timer := by
    change InTime (prepare s).timer
    rw [hp.timer]
    exact (rearmed_of_due h.due).inTime
  unfold Session.dispatch Session.handleRequest
  obtain ⟨hst, hx⟩ := asked_staged (E := E) (counting E) hp h rfl
  have hdone := handlerOps_staged (E := E) (d := .asked) (counting E) hst hx hd
  have htime' := inTime_handlerOps (E := E)
    (s := ({ (prepare s).logRequest E with lent := true } : Session State).note
      (.dispatched ((prepare s).logRequest E).conn.request)) htime ops
  dsimp only at hdone htime' ⊢
  generalize Session.handlerOps E (async E) _ ops = v at hdone htime' ⊢
  unfold Session.andThen
  split
  · rename_i hf
    intro hn
    rw [hn] at hf
    cases hf
  · rename_i hf
    have hn : v.fault = none := by simpa using hf
    dsimp only
    split
    · exact fun _ => rearmed_arm htime' 3605000
    · rename_i hflag
      intro _
      rw [sendReply_timer]
      have hs := hdone.1.stage
      have hat := hdone.2 hn
      cases d with
      | asked =>
        rw [show v.exchange = .dispatched from hat] at hs
        exact rearmed_of_due hs.2.2.1
      | waiting =>
        rw [show v.exchange = .waiting from hat] at hs
        exact absurd hs.2.2.2 hflag
      | done =>
        obtain ⟨r, hx⟩ := hat
        rw [hx] at hs
        exact absurd hs.2.2.2.1 hflag

end Handlers

/-! ### Events -/

variable {E : Externals} {s t : Session E.parser.State} {ev : Event}

theorem settled_of_free (h : Free s (starting s) (awaited s)) : Settled s := by
  refine ⟨⟨h.staged, fun _ => ?_⟩, fun _ => rearmed_of_due h.due⟩
  rw [h.idle]
  exact Exchange.noConfusion

theorem readSucceeded_rearmed (bytes : Bytes) {ops : List HandlerOp}
    (hops : (Deferral.asked.follow ops).isSome) (h : Free s (starting s) (awaited s)) :
    (s.readSucceeded E (async E) (fun s => s.requestUuid E Request.defaultIdHeader) bytes
      ops).fault = none →
    Rearmed (s.readSucceeded E (async E) (fun s => s.requestUuid E Request.defaultIdHeader) bytes
      ops).timer := by
  have hnote : ∀ n, Free ((s.parse E bytes).note (.parsed bytes.length n)) (starting s)
      (awaited s) := h.parsed bytes
  unfold Session.readSucceeded
  split
  · intro hn
    cases hn
  · rename_i n hn
    dsimp only
    split
    · rw [badRequest_timer]
      exact fun _ => rearmed_of_due h.due
    · split
      · exact dispatch_rearmed (gentle E) hops (hnote n)
      · exact fun _ => rearmed_arm (rearmed_of_due h.due).inTime 5000

theorem handleRead_settled (h : Settled s) (hr : 0 < s.reads) (e : ErrorCode) (bytes : Bytes)
    {ops : List HandlerOp} (hd : Disciplined s (.read e bytes ops)) :
    Settled (handleRead E e bytes ops { s with reads := s.reads - 1 }) := by
  have hne : starting s ≠ 0 := by
    unfold starting
    omega
  have hx := h.settled.staged.idle_of_starts hne
  have hs := h.settled.staged.stage
  rw [hx] at hs
  obtain ⟨hle, hw, hdue, hf⟩ := hs
  have hfree : Free { s with reads := s.reads - 1 } (starting { s with reads := s.reads - 1 })
      (awaited { s with reads := s.reads - 1 }) := by
    refine ⟨h.settled.staged.accepts, hx, ?_, hw, hdue, hf⟩
    unfold starting at hle ⊢
    dsimp only
    omega
  cases e with
  | operationAborted => exact settled_of_free hfree
  | failure => exact settled_of_free hfree
  | success =>
    exact ⟨readSucceeded_settled (counting E) (gentle E) bytes hd hfree,
      readSucceeded_rearmed bytes hd hfree⟩

theorem handleHandshake_settled (h : Settled s) (hh : 0 < s.handshakes) (e : ErrorCode) :
    Settled (handleHandshake e { s with handshakes := s.handshakes - 1 }) := by
  have hne : starting s ≠ 0 := by
    unfold starting
    omega
  have hx := h.settled.staged.idle_of_starts hne
  have hs := h.settled.staged.stage
  rw [hx] at hs
  obtain ⟨hle, hw, hdue, hf⟩ := hs
  have hfree : Free { s with handshakes := s.handshakes - 1 }
      (starting { s with handshakes := s.handshakes - 1 })
      (awaited { s with handshakes := s.handshakes - 1 }) := by
    refine ⟨h.settled.staged.accepts, hx, ?_, hw, hdue, hf⟩
    unfold starting at hle ⊢
    dsimp only
    omega
  cases e with
  | operationAborted => exact settled_of_free hfree
  | failure => exact settled_of_free hfree
  | success =>
    exact ⟨startRead_settled (counting E) hfree.accepts (Or.inl hfree.idle) hfree.starts hw hdue hf,
      fun _ => rearmed_of_due hdue⟩

theorem handleWriteComplete_settled (h : Settled s) {i : Nat} (hi : i < s.writes.length)
    (e : ErrorCode) :
    Settled (handleWriteComplete e { s with writes := s.writes.eraseIdx i }) := by
  obtain ⟨hx, hr, hw, hdue, hf⟩ := h.settled.staged.written hi
  have hsilent : Settled { s with writes := s.writes.eraseIdx i } := by
    refine ⟨⟨⟨h.settled.staged.accepts, ?_⟩, fun hn => h.settled.answered hn⟩,
      fun _ => rearmed_of_due hdue⟩
    change Stage _ _ _ _ s.exchange
    rw [hx]
    dsimp only [Stage]
    rw [hw]
    exact ⟨hr, Nat.zero_le 1, hdue, hf, List.forall_mem_nil _⟩
  cases e with
  | operationAborted => exact hsilent
  | failure => exact hsilent
  | success =>
    have hcancel : InTime s.timer.cancel := inTime_cancel (rearmed_of_due hdue).inTime
    refine ⟨?_, fun _ => rearmed_arm hcancel 5000⟩
    refine startRead_settled (counting E) h.settled.staged.accepts (Or.inr hx) hr hw ?_ hf
    have hsame : asyncCalls s.timer.cancel = asyncCalls s.timer :=
      asyncCalls_complete s.timer .operationAborted
    have harm := asyncCalls_rearm s.timer.cancel 5000 .handleTimer
    exact harm.trans (hsame.trans hdue)

/-- `handle_async_call` runs for a handler that has not notified yet. -/
def Early {State : Type} (s : Session State) (ev : Event) : Prop :=
  s.exchange = .waiting ∧ ∃ i c timer, ev = .timer i ∧ s.timer.dequeue i = some (c, timer) ∧
    c.wait.handler = .handleAsyncCall

theorem handleWait_settled (h : Settled s) (hf : s.fault = none) {i : Nat}
    {c : Completion Waiter} {timer : DeadlineTimer Waiter}
    (hd : s.timer.dequeue i = some (c, timer)) (hearly : ¬ Early s (.timer i)) :
    Settled (handleWait E c.wait c.code { s with timer := timer }) := by
  obtain ⟨hre, hcode⟩ := rearmed_dequeue (h.timer hf) hd
  have hcount := asyncCalls_dequeue hd
  unfold handleWait
  cases hw : c.wait.handler with
  | handleTimer =>
    rw [hw] at hcount
    have hsame : ∀ (l : List Obs), (∀ o ∈ l, o.Still) →
        Settled { s with timer := timer, log := s.log ++ l } := fun l hl =>
      ⟨h.settled.of_still rfl hl rfl rfl rfl rfl hcount.symm, fun _ => hre⟩
    have hquiet : Settled { s with timer := timer } := by
      have hnil := hsame [] (List.forall_mem_nil _)
      rwa [List.append_nil] at hnil
    unfold handleTimer
    cases c.code with
    | operationAborted => exact hquiet
    | failure => exact hquiet
    | success => exact hsame [.timedOut c.wait] (List.forall_mem_singleton.mpr fun _ => ⟨rfl, trivial⟩)
  | handleAsyncCall =>
    rw [hcode hw]
    rw [hw] at hcount
    have hs := h.settled.staged.stage
    have hone : awaited s = asyncCalls timer + 1 := hcount
    cases hx : s.exchange with
    | idle | dispatched | sending _ | replied =>
      rw [hx] at hs
      have hdue := hs.2.2.1
      omega
    | waiting => exact absurd ⟨hx, i, c, timer, rfl, hd, hw⟩ hearly
    | notified r =>
      rw [hx] at hs
      obtain ⟨hstarts, hwrites, hdue, -, hreply⟩ := hs
      have hnone : asyncCalls timer = 0 := by omega
      refine ⟨sendReply_settled (counting E) h.settled.staged.accepts (Or.inr (Or.inr ?_)) hstarts
        hwrites hnone, fun _ => ?_⟩
      · exact hx.trans (congrArg _ hreply.symm)
      · rw [show (handleAsyncCall E c.wait .operationAborted { s with timer := timer }).timer = timer
          from (sendReply_counts E _).2.2.2]
        exact hre

theorem step_settled (h : Settled s) (hd : Disciplined s ev) (hearly : ¬ Early s ev)
    (hs : step E s ev = some t) : Settled t := by
  obtain ⟨hf, hstep⟩ := Session.stepped_of_step hs
  cases hstep with
  | handshake e hh => exact handleHandshake_settled h hh e
  | read e bytes ops hr hb => exact handleRead_settled h hr e bytes hd
  | write i e hi => exact handleWriteComplete_settled h hi e
  | expire hp =>
    refine ⟨h.settled.of_still (List.append_nil _).symm (List.forall_mem_nil _) rfl rfl rfl rfl ?_,
      fun hn => rearmed_expire (h.timer hn)⟩
    exact asyncCalls_complete s.timer .success
  | timer i c timer hdeq => exact handleWait_settled h hf hdeq hearly
  | asyncReplyDone hp =>
    exact ⟨h.settled.of_still (List.append_nil _).symm (List.forall_mem_nil _) rfl rfl rfl rfl rfl,
      h.timer⟩
  | handler op hl =>
    refine ⟨handler_settled (counting E) h.settled hd, fun _ => ?_⟩
    have hre := h.timer hf
    obtain ⟨hx, hnext⟩ := hd
    have htake : ∀ x, Rearmed (s.takeReply x).timer := by
      intro x
      rw [(takeReply_counts s x).2.2.2]
      exact hre
    cases op with
    | writeContent bytes => exact htake _
    | create status contentType extraHeaders => exact htake _
    | addHeader hdr => exact hre
    | resetReply => exact hre
    | requestId idHeader => exact hre
    | requestUuid idHeader => exact hre
    | waitForAsyncReply => cases hnext
    | notifyAsyncReplyDone => exact rearmed_cancel hre.inTime

theorem start_settled (tag : Bytes) (junk : Uninitialised) : Settled (start E tag junk) :=
  ⟨⟨⟨trivial, Nat.le_refl 1, rfl, rfl, rfl⟩, fun _ => Exchange.noConfusion⟩,
    fun _ => NoAsyncCall.rearmed ⟨List.forall_mem_nil _, List.forall_mem_nil _⟩⟩

theorem Settled.orderly (h : Settled s) : Orderly s (abortedCalls s.timer = 1) := by
  have hs := h.settled.staged.stage
  refine orderly_of_accepts h.settled.staged.accepts (fun hf => ⟨h.settled.answered hf, ?_⟩) ?_
  · intro r hx
    rw [hx] at hs
    rw [(h.timer hf).abortedCalls_eq]
    exact hs.2.2.1
  · intro w hw
    have hx := h.settled.staged.replied_of_writes (List.ne_nil_of_mem hw)
    rw [hx] at hs
    exact hs.2.2.2.2 w hw

/-- The abort that `handle_read` has caused is taken for the reply being ready. -/
theorem early_breaks (h : Settled s) (hearly : Early s ev) (hs : step E s ev = some t)
    (onItsWay : Prop) : ¬ Orderly t onItsWay := by
  obtain ⟨hx, i, c, timer, rfl, hd, hw⟩ := hearly
  obtain ⟨hf, hstep⟩ := Session.stepped_of_step hs
  cases hstep with
  | timer i c' timer' hd' =>
    obtain ⟨rfl, rfl⟩ := Prod.mk.inj (Option.some.inj (hd'.symm.trans hd))
    have hcode := (rearmed_dequeue (h.timer hf) hd).2 hw
    obtain ⟨l, hl⟩ := sendReply_log E { s with timer := timer' }
    refine not_orderly_of_early (s := s) hx (l := l) (Eq.trans (congrArg Session.log ?_) hl)
    change handleWait E c'.wait c'.code { s with timer := timer' } = _
    unfold handleWait
    rw [hw, hcode]
    rfl

/-- With disciplined handlers a run goes through orderly states only exactly if
`handle_async_call` never runs before the handler it waits for has notified. -/
theorem async_reply_iff (E : Externals) (tag : Bytes) (junk : Uninitialised) {es : List Event}
    {u : Session E.parser.State} (hd : Along (step E) Disciplined (start E tag junk) es)
    (h : runs (step E) (start E tag junk) es = some u) :
    Throughout (step E) (fun s => Orderly s (abortedCalls s.timer = 1)) (start E tag junk) es ↔
      Along (step E) (fun s ev => ¬ Early s ev) (start E tag junk) es :=
  throughout_iff_along (fun _ hs => hs.orderly)
    (fun _ _ _ hs hd hc ht => step_settled hs hd hc ht)
    (fun _ _ _ hs _ hc ht => early_breaks hs (not_not.mp hc) ht _) (start_settled tag junk) hd h

/-- The handler defers its reply, and the aborted wait completes before it notifies. -/
def earlyAbort : List Event :=
  [.handshake .success, .read .success (getBytes (ascii "/")) [.waitForAsyncReply], .timer 0]

theorem async_reply_iff_earlyAbort :
    Throughout (step getServer) (fun s => Orderly s (abortedCalls s.timer = 1))
        (start getServer [] .zero) earlyAbort ↔
      Along (step getServer) (fun s ev => ¬ Early s ev) (start getServer [] .zero) earlyAbort := by
  have hrun : ∃ u, runs (step getServer) (start getServer [] .zero) earlyAbort = some u := ⟨_, rfl⟩
  obtain ⟨u, hu⟩ := hrun
  exact async_reply_iff getServer [] .zero (by decide +kernel) hu

theorem earlyAbort_not_orderly :
    Along (step getServer) Disciplined (start getServer [] .zero) earlyAbort ∧
      ∃ u, runs (step getServer) (start getServer [] .zero) earlyAbort = some u ∧
        ¬ Orderly u (abortedCalls u.timer = 1) := by
  refine ⟨by decide +kernel, ?_⟩
  have hrun : ∃ u r, runs (step getServer) (start getServer [] .zero) earlyAbort = some u ∧
      u.log = u.log.take 9 ++ .deferred :: [] ++ .replying r :: u.log.drop 11 := ⟨_, _, rfl, rfl⟩
  obtain ⟨u, r, hu, hlog⟩ := hrun
  refine ⟨u, hu, fun ho => ?_⟩
  obtain ⟨r', hr⟩ := ho.patient _ [] r _ hlog
  cases hr

end HttpsConnection

end CsiHttp.Server

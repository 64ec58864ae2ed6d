import CsiHttp.Server.HttpExchange
import CsiHttp.Server.Timeout

/-!
# The deadline of a read

Only `handle_timer` ends a connection whose client stays silent. The handlers that start a read
arm the timer first, and `start` does not: the wait for the first bytes of a connection has no
deadline. Later a read loses its deadline only when another completion cancels the timer, which
takes a handler that uses the connection out of turn.
-/
namespace CsiHttp.Server

open Lib Lib.Text Lib.Runs

def Obs.isTimedOut : Obs → Bool
  | .timedOut _ => true
  | .callback _ | .parsed _ _ | .requestIdLogged _ | .methodLogged _ | .dispatched _ | .deferred
  | .notified _ | .replying _ | .replied _ _ | .readStarted => false

section Sessions

variable {State : Type} {s t u : Session State}

namespace Session

/-- `handle_timer` has shut the socket down. -/
def Ended (s : Session State) : Prop := ∃ o ∈ s.log, o.isTimedOut = true

/-- A wait for `handle_timer` is pending. -/
def Armed (s : Session State) : Prop := ∃ w ∈ s.timer.pending, w.handler = .handleTimer

/-- The deadline has passed, and `handle_timer` is queued. -/
def Overdue (s : Session State) : Prop :=
  ∃ c ∈ s.timer.queued, c.code = .success ∧ c.wait.handler = .handleTimer

/-- An outstanding read has a deadline. -/
def Guarded (s : Session State) : Prop := 0 < s.reads → ¬ s.Ended → s.Armed ∨ s.Overdue

instance (s : Session State) : Decidable s.Ended :=
  inferInstanceAs (Decidable (∃ o ∈ s.log, o.isTimedOut = true))

instance (s : Session State) : Decidable s.Overdue :=
  inferInstanceAs
    (Decidable (∃ c ∈ s.timer.queued, c.code = .success ∧ c.wait.handler = .handleTimer))

theorem armed_arm (s : Session State) (ms : Nat) : (s.arm ms .handleTimer).Armed :=
  ⟨_, List.mem_singleton.mpr rfl, rfl⟩

/-- Cancelling the timer takes away the wait, but not a completion that is queued. -/
theorem cancelled_iff (hq : t.timer = s.timer.cancel) : (t.Armed ∨ t.Overdue) ↔ s.Overdue := by
  unfold Armed Overdue
  rw [hq, DeadlineTimer.cancel_queued]
  constructor
  · intro hguard
    obtain ⟨w, hw, -⟩ | ⟨c, hc, hcode, hw⟩ := hguard
    · cases hw
    · cases List.mem_append.mp hc with
      | inl hc => exact ⟨c, hc, hcode, hw⟩
      | inr hc =>
        obtain ⟨w, -, rfl⟩ := List.mem_map.mp hc
        cases hcode
  · intro hover
    obtain ⟨c, hc, hcode, hw⟩ := hover
    exact Or.inr ⟨c, List.mem_append_left _ hc, hcode, hw⟩

end Session

/-! ## Actions that leave the reads alone -/

/-- No read is started, none completes, and no deadline ends the connection. -/
structure Attends (s t : Session State) : Prop where
  reads : t.reads = s.reads
  ended : t.Ended ↔ s.Ended

theorem ended_append {l : List Obs} (hl : t.log = s.log ++ l)
    (ho : ∀ o ∈ l, o.isTimedOut = false) : t.Ended ↔ s.Ended := by
  unfold Session.Ended
  rw [hl]
  constructor
  · intro hend
    obtain ⟨o, hmem, ht⟩ := hend
    refine ⟨o, (List.mem_append.mp hmem).resolve_right (fun hmem => ?_), ht⟩
    rw [ho o hmem] at ht
    cases ht
  · intro hend
    obtain ⟨o, hmem, ht⟩ := hend
    exact ⟨o, List.mem_append_left _ hmem, ht⟩

theorem ended_congr (hl : t.log = s.log) : t.Ended ↔ s.Ended := by
  unfold Session.Ended
  rw [hl]

theorem Attends.of_same (hr : t.reads = s.reads) (hl : t.log = s.log) : Attends s t :=
  ⟨hr, ended_congr hl⟩

theorem Attends.refl (s : Session State) : Attends s s := .of_same rfl rfl

theorem Attends.trans (h : Attends s t) (h' : Attends t u) : Attends s u :=
  ⟨h'.reads.trans h.reads, h'.ended.trans h.ended⟩

theorem attends_note (s : Session State) {o : Obs} (ho : o.isTimedOut = false) :
    Attends s (s.note o) :=
  ⟨rfl, ended_append rfl (List.forall_mem_singleton.mpr ho)⟩

theorem attends_kept (E : Externals) :
    Session.KeptBySending E (fun s t : Session State => Attends s t) where
  refl := .refl
  trans := .trans
  crash _ _ := .of_same rfl rfl
  setReply _ _ := .of_same rfl rfl
  requestId _ _ := .of_same rfl rfl
  idLogged s := attends_note s rfl
  methodLogged s := attends_note s rfl
  replying s := attends_note s rfl
  setWaiting _ _ := .of_same rfl rfl
  replied _ r bufs :=
    ⟨rfl, ended_append (l := [.replied r bufs]) rfl (List.forall_mem_singleton.mpr rfl)⟩

end Sessions

namespace HttpConnection

section Handlers

variable {State : Type} {E : Externals} {s t : Session State}

theorem attends_wait (s : Session State) : Attends s (waitForAsyncReply s) :=
  (attends_note s (o := .deferred) rfl).trans (.of_same rfl rfl)

theorem attends_notify (s : Session State) : Attends s (notifyAsyncReplyDone E s) :=
  ((attends_note s (o := .notified _) rfl).trans ((attends_kept E).logRequestId _)).trans
    (.of_same rfl rfl)

theorem attends_handlerOp (s : Session State) (op : HandlerOp) :
    Attends s (s.handlerOp E (async E) op) :=
  (attends_kept E).handlerOp attends_wait attends_notify s (fun _ _ => .of_same rfl rfl)

/-- Only `wait_for_async_reply` touches the timer and the flag. -/
theorem handlerOp_still (s : Session State) {op : HandlerOp} (hop : op ≠ .waitForAsyncReply) :
    (s.handlerOp E (async E) op).timer = s.timer ∧
      (s.handlerOp E (async E) op).conn.waitingForAsyncReply = s.conn.waitingForAsyncReply := by
  have htake : ∀ x, (s.takeReply x).timer = s.timer ∧
      (s.takeReply x).conn.waitingForAsyncReply = s.conn.waitingForAsyncReply := by
    intro x
    cases x with
    | ok r => exact ⟨rfl, rfl⟩
    | error f => exact ⟨rfl, rfl⟩
  cases op with
  | writeContent bytes => exact htake _
  | create status contentType extraHeaders => exact htake _
  | addHeader h => exact ⟨rfl, rfl⟩
  | resetReply => exact ⟨rfl, rfl⟩
  | requestId idHeader => exact ⟨rfl, rfl⟩
  | requestUuid idHeader => exact ⟨rfl, rfl⟩
  | waitForAsyncReply => exact absurd rfl hop
  | notifyAsyncReplyDone => exact ⟨rfl, rfl⟩

theorem attends_handlerOps (s : Session State) (ops : List HandlerOp) :
    Attends s (s.handlerOps E (async E) ops) :=
  (attends_kept E).handlerOps attends_wait attends_notify s (fun _ _ _ => .of_same rfl rfl)

theorem handlerOps_still (s : Session State) {ops : List HandlerOp}
    (hops : .waitForAsyncReply ∉ ops) :
    (s.handlerOps E (async E) ops).timer = s.timer ∧
      (s.handlerOps E (async E) ops).conn.waitingForAsyncReply = s.conn.waitingForAsyncReply := by
  refine Session.handlerOps_induction (I := fun t => t.timer = s.timer ∧
    t.conn.waitingForAsyncReply = s.conn.waitingForAsyncReply) ?_ ⟨rfl, rfl⟩
  intro t op hop h
  obtain ⟨ht, hw⟩ := handlerOp_still (E := E) t (fun he => hops (he ▸ hop))
  exact ⟨ht.trans h.1, hw.trans h.2⟩

/-- The flag stays once it is set. -/
theorem handlerOps_waiting (ops : List HandlerOp) (h : s.conn.waitingForAsyncReply = true) :
    (s.handlerOps E (async E) ops).conn.waitingForAsyncReply = true := by
  refine Session.handlerOps_induction
    (I := fun t => t.conn.waitingForAsyncReply = true) (fun t op _ ht => ?_) h
  by_cases hop : op = .waitForAsyncReply
  · rw [hop]
    rfl
  · exact (handlerOp_still t hop).2.trans ht

/-- A handler that calls `wait_for_async_reply` and does not crash before leaves the flag set. -/
theorem handlerOps_waits {ops : List HandlerOp} (hops : .waitForAsyncReply ∈ ops)
    (hf : (s.handlerOps E (async E) ops).fault = none) :
    (s.handlerOps E (async E) ops).conn.waitingForAsyncReply = true := by
  induction ops generalizing s with
  | nil => cases hops
  | cons op ops ih =>
    rw [Session.handlerOps] at hf ⊢
    unfold Session.andThen at hf ⊢
    split at hf
    · next hcrash =>
      rw [hf] at hcrash
      cases hcrash
    · next hgo =>
      rw [if_neg hgo]
      cases List.mem_cons.mp hops with
      | inl hop =>
        rw [← hop]
        exact handlerOps_waiting ops rfl
      | inr hops => exact ih hops hf

/-- The dispatched request is answered at once, or guarded while its reply is awaited. -/
theorem dispatch_deadline {ops : List HandlerOp}
    (hf : (s.dispatch E (async E) id ops).fault = none) :
    ((s.conn.waitingForAsyncReply = true ∨ .waitForAsyncReply ∈ ops) ∧
        (s.dispatch E (async E) id ops).Armed) ∨
      (¬ (s.conn.waitingForAsyncReply = true ∨ .waitForAsyncReply ∈ ops) ∧
        (s.dispatch E (async E) id ops).timer = s.timer ∧
        Attends s (s.dispatch E (async E) id ops)) := by
  let d := ({ s.logRequest E with lent := true } : Session State).note
    (.dispatched (s.logRequest E).conn.request)
  have hd : Attends s d := by
    have hlent : Attends s ({ s.logRequest E with lent := true } : Session State) :=
      ((attends_kept E).logRequest s).trans (.of_same rfl rfl)
    exact hlent.trans (attends_note _ rfl)
  change (d.handlerOps E (async E) ops |>.andThen _).fault = none at hf
  change (_ ∧ (d.handlerOps E (async E) ops |>.andThen _).Armed) ∨
    (_ ∧ (d.handlerOps E (async E) ops |>.andThen _).timer = s.timer ∧
      Attends s (d.handlerOps E (async E) ops |>.andThen _))
  unfold Session.andThen at hf ⊢
  split at hf
  · next hcrash =>
    rw [hf] at hcrash
    cases hcrash
  · next hgo =>
    rw [if_neg hgo]
    dsimp only
    by_cases hdefers : s.conn.waitingForAsyncReply = true ∨ .waitForAsyncReply ∈ ops
    · have hwaiting : (d.handlerOps E (async E) ops).conn.waitingForAsyncReply = true := by
        cases hdefers with
        | inl hw => exact handlerOps_waiting ops hw
        | inr hmem => exact handlerOps_waits hmem (Option.not_isSome_iff_eq_none.mp hgo)
      rw [if_pos hwaiting]
      exact Or.inl ⟨hdefers, Session.armed_arm _ _⟩
    · obtain ⟨hw, hmem⟩ := not_or.mp hdefers
      obtain ⟨htimer, hflag⟩ := handlerOps_still (E := E) d hmem
      have hwaiting : (d.handlerOps E (async E) ops).conn.waitingForAsyncReply ≠ true :=
        fun h => hw (hflag.symm.trans h)
      rw [if_neg hwaiting]
      exact Or.inr ⟨hdefers, (sendReply_timer E _).trans htimer,
        (hd.trans (attends_handlerOps d ops)).trans ((attends_kept E).sendReply _)⟩

end Handlers

/-! ## Completions that cancel the timer -/

variable {E : Externals} {s t u : Session E.parser.State} {ev : Event} {es : List Event}

/-- A handler that has cancelled the timer arms it again. -/
def Rearms (E : Externals) (s : Session E.parser.State) : Event → Prop
  | .read .success bytes ops =>
    (s.conn.httpParse E.parser bytes).result = .ok bytes.length ∧
      ((s.conn.httpParse E.parser bytes).conn.requestComplete = true →
        s.conn.waitingForAsyncReply = true ∨ .waitForAsyncReply ∈ ops)
  | .write _ .success => s.conn.keepAlive = true
  | _ => False

instance (E : Externals) (s : Session E.parser.State) : (ev : Event) → Decidable (Rearms E s ev)
  | .read .success bytes ops =>
    inferInstanceAs (Decidable ((s.conn.httpParse E.parser bytes).result = .ok bytes.length ∧
      ((s.conn.httpParse E.parser bytes).conn.requestComplete = true →
        s.conn.waitingForAsyncReply = true ∨ .waitForAsyncReply ∈ ops)))
  | .write _ .success => inferInstanceAs (Decidable (s.conn.keepAlive = true))
  | .read .operationAborted _ _ | .read .failure _ _ | .write _ .operationAborted
  | .write _ .failure | .handshake _ | .expire | .timer _ | .asyncReplyDone | .handler _ =>
    isFalse id

/-- The reads that are still outstanding when the completion runs. -/
def readsBeside {State : Type} (s : Session State) : Event → Nat
  | .read _ _ _ => s.reads - 1
  | .handshake _ | .write _ _ | .expire | .timer _ | .asyncReplyDone | .handler _ => s.reads

/-- What such a completion leaves behind. -/
inductive Cancelled (E : Externals) (s : Session E.parser.State) (ev : Event)
    (t : Session E.parser.State) : Prop where
  | rearmed (hr : Rearms E s ev) (ht : t.Armed)
  | bare (hr : ¬ Rearms E s ev) (ht : t.timer = s.timer.cancel) (hreads : t.reads = readsBeside s ev)
      (hended : t.Ended ↔ s.Ended)

theorem Cancelled.of_attends {r : Session E.parser.State} (hr : ¬ Rearms E s ev)
    (hcancel : r.timer = s.timer.cancel) (hreads : r.reads = readsBeside s ev)
    (hlog : r.log = s.log) (ht : t.timer = r.timer) (h : Attends r t) : Cancelled E s ev t :=
  .bare hr (ht.trans hcancel) (h.reads.trans hreads) (h.ended.trans (ended_congr hlog))

/-- A successful read is followed by another one, with a deadline, or by a reply. -/
theorem readSucceeded_deadline {bytes : Bytes} {ops : List HandlerOp}
    (hf : (s.readSucceeded E (async E) id bytes ops).fault = none) :
    (Rearms E s (.read .success bytes ops) ∧ (s.readSucceeded E (async E) id bytes ops).Armed) ∨
      (¬ Rearms E s (.read .success bytes ops) ∧
        (s.readSucceeded E (async E) id bytes ops).timer = s.timer ∧
        Attends s (s.readSucceeded E (async E) id bytes ops)) := by
  have hparsed : ∀ n, Attends s ((s.parse E bytes).note (.parsed bytes.length n)) := by
    intro n
    have hparse : Attends s (s.parse E bytes) := by
      refine ⟨rfl, ended_append (l := (s.conn.httpParse E.parser bytes).made.map .callback) rfl ?_⟩
      rw [List.forall_mem_map]
      exact fun _ _ => rfl
    exact hparse.trans (attends_note _ rfl)
  have hwaiting : (s.parse E bytes).conn.waitingForAsyncReply = s.conn.waitingForAsyncReply :=
    s.conn.httpParse_waiting bytes
  cases hresult : (s.conn.httpParse E.parser bytes).result with
  | error f =>
    unfold Session.readSucceeded at hf
    rw [hresult] at hf
    cases hf
  | ok n =>
    by_cases hn : n = bytes.length
    · subst hn
      by_cases hc : (s.conn.httpParse E.parser bytes).conn.requestComplete = true
      · rw [readSucceeded_completed hresult hc] at hf ⊢
        have hdispatch := dispatch_deadline hf
        simp only [Session.note, hwaiting] at hdispatch
        obtain ⟨hdefers, harmed⟩ | ⟨hdefers, htimer, hattends⟩ := hdispatch
        · exact Or.inl ⟨⟨hresult, fun _ => hdefers⟩, harmed⟩
        · exact Or.inr ⟨fun hr => hdefers (hr.2 hc), htimer, (hparsed _).trans hattends⟩
      · rw [readSucceeded_more hresult hc]
        exact Or.inl ⟨⟨hresult, fun h => absurd h hc⟩, Session.armed_arm _ _⟩
    · rw [readSucceeded_rejected hresult hn]
      refine Or.inr ⟨fun hr => hn ?_, badRequest_timer E _,
        (hparsed n).trans ((attends_kept E).badRequest _)⟩
      exact Except.ok.inj (hresult.symm.trans hr.1)

/-- What a completion that cancels the timer does to the deadline. -/
theorem step_cancelled (hs : step E s ev = some t) (hf : t.fault = none)
    (hc : CancelsTimer s ev) : Cancelled E s ev t := by
  cases (Session.stepped_of_step hs).2 with
  | handshake e hh => exact hc.elim
  | read e bytes ops hr hb =>
    cases e with
    | operationAborted => exact absurd rfl hc
    | failure => exact .bare id rfl rfl Iff.rfl
    | success =>
      let r := ({ s with reads := s.reads - 1 } : Session E.parser.State).cancelTimer
      obtain ⟨hrearms, harmed⟩ | ⟨hrearms, htimer, hattends⟩ :=
        readSucceeded_deadline (s := r) hf
      · exact .rearmed hrearms harmed
      · exact .of_attends (r := r) hrearms rfl rfl rfl htimer hattends
  | write i e hi =>
    change Cancelled E s (.write i e) (handleWrite e { s with writes := s.writes.eraseIdx i })
    unfold handleWrite
    cases e with
    | operationAborted =>
      obtain hc | ⟨hc, -⟩ := hc
      · cases hc
      · cases hc
    | success =>
      dsimp only
      by_cases hk : s.conn.keepAlive = true
      · rw [if_pos hk]
        exact .rearmed hk (Session.armed_arm _ _)
      · rw [if_neg hk]
        exact .bare hk rfl rfl Iff.rfl
    | failure =>
      obtain hc | ⟨-, hk⟩ := hc
      · cases hc
      · dsimp only
        rw [if_neg (Bool.eq_false_iff.mp hk)]
        exact .bare id rfl rfl Iff.rfl
  | expire hp => exact hc.elim
  | timer i c timer hd => exact hc.elim
  | asyncReplyDone hp =>
    let r := ({ s with posted := s.posted - 1 } : Session E.parser.State).cancelTimer
    exact .of_attends (r := r) id rfl rfl rfl (sendReply_timer E r) ((attends_kept E).sendReply r)
  | handler op hl => exact hc.elim

/-- A completion that cancels the timer leaves no read without a deadline: it arms the timer
again, no other read is outstanding, or the deadline has passed before. -/
def Covered (E : Externals) (s : Session E.parser.State) (ev : Event) : Prop :=
  CancelsTimer s ev → Rearms E s ev ∨ readsBeside s ev = 0 ∨ s.Ended ∨ s.Overdue

instance (E : Externals) (s : Session E.parser.State) (ev : Event) : Decidable (Covered E s ev) :=
  inferInstanceAs (Decidable (_ → _))

theorem guarded_of_covered (hs : step E s ev = some t) (hf : t.fault = none)
    (hc : CancelsTimer s ev) (hcovered : Covered E s ev) : t.Guarded := by
  cases step_cancelled hs hf hc with
  | rearmed hr ht => exact fun _ _ => Or.inl ht
  | bare hr ht hreads hended =>
    intro hpos hopen
    obtain hrearms | hnone | hend | hover := hcovered hc
    · exact absurd hrearms hr
    · omega
    · exact absurd (hended.mpr hend) hopen
    · exact (Session.cancelled_iff ht).mpr hover

theorem not_guarded_of_not_covered (hs : step E s ev = some t) (hf : t.fault = none)
    (hcovered : ¬ Covered E s ev) : ¬ t.Guarded := by
  unfold Covered at hcovered
  push Not at hcovered
  obtain ⟨hc, hrearms, hreads, hend, hover⟩ := hcovered
  cases step_cancelled hs hf hc with
  | rearmed hr ht => exact absurd hr hrearms
  | bare hr ht hcount hended =>
    intro hg
    have hguard := hg (by omega) (fun he => hend (hended.mp he))
    exact hover ((Session.cancelled_iff ht).mp hguard)

/-! ## Other events -/

theorem Attends.guarded {State : Type} {s t : Session State} (h : Attends s t)
    (ht : t.timer = s.timer) (hg : s.Guarded) : t.Guarded := by
  intro hpos hopen
  unfold Session.Armed Session.Overdue
  rw [ht]
  exact hg (h.reads ▸ hpos) (fun he => hopen (h.ended.mpr he))

/-- A completion of the timer has run: it was an abort, or it ends the connection. -/
theorem timer_guarded {State : Type} {s : Session State} {i : Nat} {c : Completion Waiter}
    {timer : DeadlineTimer Waiter} (hg : s.Guarded) (hd : s.timer.dequeue i = some (c, timer)) :
    (handleTimer c.wait c.code { s with timer := timer }).Guarded := by
  have hkept : c.code ≠ .success → Session.Guarded { s with timer := timer } := by
    intro hcode hpos hopen
    obtain ⟨-, hpending⟩ := DeadlineTimer.dequeue_eq_some hd
    cases hg hpos hopen with
    | inl harmed =>
      left
      unfold Session.Armed
      rw [hpending]
      exact harmed
    | inr hover =>
      obtain ⟨d, hmem, hsuccess, hw⟩ := hover
      refine Or.inr ⟨d, (DeadlineTimer.mem_of_dequeue hd hmem).resolve_left ?_, hsuccess, hw⟩
      exact fun hdc => hcode (hdc ▸ hsuccess)
  cases hcode : c.code with
  | success =>
    intro _ hopen
    exact absurd ⟨.timedOut c.wait, List.mem_append_right _ List.mem_cons_self, rfl⟩ hopen
  | operationAborted => exact hkept (by rw [hcode]; exact ErrorCode.noConfusion)
  | failure => exact hkept (by rw [hcode]; exact ErrorCode.noConfusion)

theorem step_guarded (hg : s.Guarded) (hs : step E s ev = some t) (hc : ¬ CancelsTimer s ev) :
    t.Guarded := by
  cases (Session.stepped_of_step hs).2 with
  | handshake e hh => exact hg
  | read e bytes ops hr hb =>
    cases e with
    | operationAborted => exact fun hpos hopen => hg hr hopen
    | success => exact absurd ErrorCode.noConfusion hc
    | failure => exact absurd ErrorCode.noConfusion hc
  | write i e hi =>
    change (handleWrite e { s with writes := s.writes.eraseIdx i }).Guarded
    unfold handleWrite
    cases e with
    | operationAborted => exact hg
    | success => exact absurd (Or.inl rfl) hc
    | failure =>
      dsimp only
      by_cases hk : s.conn.keepAlive = true
      · rw [if_pos hk]
        exact hg
      · exact absurd (Or.inr ⟨rfl, Bool.eq_false_iff.mpr hk⟩) hc
  | expire hp =>
    intro hpos hopen
    right
    unfold Session.Overdue
    rw [DeadlineTimer.expire_queued]
    cases hg hpos hopen with
    | inl harmed =>
      obtain ⟨w, hw, hhandler⟩ := harmed
      exact ⟨⟨w, .success⟩, List.mem_append_right _ (List.mem_map_of_mem hw), rfl, hhandler⟩
    | inr hover =>
      obtain ⟨c, hmem, hsuccess⟩ := hover
      exact ⟨c, List.mem_append_left _ hmem, hsuccess⟩
  | timer i c timer hd => exact timer_guarded hg hd
  | asyncReplyDone hp => exact absurd trivial hc
  | handler op hl =>
    by_cases hop : op = .waitForAsyncReply
    · rw [hop]
      exact fun _ _ => Or.inl (Session.armed_arm _ _)
    · exact Attends.guarded (attends_handlerOp s op) (handlerOp_still s hop).1 hg

/-! ## Runs -/

theorem not_guarded_start (tag : Bytes) (junk : Uninitialised) :
    ¬ (start E tag junk).Guarded := by
  intro hg
  have hopen : ¬ (start E tag junk).Ended := by
    intro hend
    obtain ⟨o, ho, ht⟩ := hend
    rw [List.mem_singleton.mp ho] at ht
    cases ht
  obtain ⟨w, hw, -⟩ | ⟨c, hc, -⟩ := hg Nat.one_pos hopen
  · cases hw
  · cases hc

/-- The first event of a connection completes its first read. -/
theorem first_guarded {tag : Bytes} {junk : Uninitialised}
    (hs : step E (start E tag junk) ev = some t) (hc : ¬ CancelsTimer (start E tag junk) ev) :
    t.Guarded := by
  cases (Session.stepped_of_step hs).2 with
  | handshake e hh => exact absurd hh (Nat.lt_irrefl 0)
  | read e bytes ops hr hb =>
    cases e with
    | operationAborted => exact fun hpos _ => absurd hpos (Nat.lt_irrefl 0)
    | success => exact absurd ErrorCode.noConfusion hc
    | failure => exact absurd ErrorCode.noConfusion hc
  | write i e hi => exact absurd hi (Nat.not_lt_zero i)
  | expire hp => exact absurd rfl hp
  | timer i c timer hd => cases hd
  | asyncReplyDone hp => exact absurd hp (Nat.lt_irrefl 0)
  | handler op hl => cases hl

/-- The wait for the first bytes has no deadline. After that every step leaves the reads guarded
exactly if no completion takes the deadline of another read. -/
theorem guarded_iff_covered (E : Externals) (tag : Bytes) (junk : Uninitialised)
    {u : Session E.parser.State} (h : runs (step E) (start E tag junk) es = some u) (hf : u.fault = none) :
    ¬ (start E tag junk).Guarded ∧
      (Steps (step E) (fun _ _ t => t.Guarded) (start E tag junk) es ↔
        Along (step E) (Covered E) (start E tag junk) es) := by
  refine ⟨not_guarded_start tag junk, ?_⟩
  have hsound : Steps (step E) (fun _ _ t => t.fault = none) (start E tag junk) es :=
    steps_of_last (fun _ _ _ hs _ => (Session.stepped_of_step hs).1) h hf
  refine steps_iff_along (I := fun s => s.Guarded ∨ s = start E tag junk) ?_ ?_ (Or.inr rfl)
    hsound h
  · intro s ev t hi hd hcovered hs
    have ht : t.Guarded := by
      by_cases hc : CancelsTimer s ev
      · exact guarded_of_covered hs (hd t hs) hc hcovered
      · cases hi with
        | inl hg => exact step_guarded hg hs hc
        | inr hstart =>
          subst hstart
          exact first_guarded hs hc
    exact ⟨Or.inl ht, ht⟩
  · exact fun s ev t _ hd hcovered hs => not_guarded_of_not_covered hs (hd t hs) hcovered

/-- A request is answered, and the deadline for the next one passes. -/
def patient : List Event :=
  [.read .success (getBytes (ascii "/")) [.create .ok Reply.textHtml 0], .write 0 .success,
    .expire, .timer 0]

theorem guarded_iff_covered_patient :
    ∃ u, runs (step getServer) (start getServer [] .zero) patient = some u ∧ u.reads = 1 ∧
      Steps (step getServer) (fun _ _ t => t.Guarded) (start getServer [] .zero) patient := by
  have hrun : ∃ u, runs (step getServer) (start getServer [] .zero) patient = some u ∧
      u.reads = 1 ∧ u.fault = none := ⟨_, rfl, rfl, rfl⟩
  obtain ⟨u, hu, hreads, hf⟩ := hrun
  exact ⟨u, hu, hreads, (guarded_iff_covered getServer [] .zero hu hf).2.mpr (by decide +kernel)⟩

/-- A connection that has just been started waits for ever for a client that sends nothing. -/
theorem start_not_guarded :
    ∃ u, runs (step getServer) (start getServer [] .zero) [] = some u ∧ u.reads = 1 ∧
      u.timer.pending = [] ∧ u.timer.queued = [] ∧ ¬ u.Guarded :=
  ⟨_, rfl, rfl, rfl, rfl, not_guarded_start _ _⟩

/-- With disciplined handlers one thing goes on at a time, so no completion takes the deadline
of another read. -/
theorem covered_of_disciplined {tag : Bytes} {junk : Uninitialised}
    (hd : Along (step E) Disciplined (start E tag junk) es)
    (h : runs (step E) (start E tag junk) es = some u) :
    Along (step E) (Covered E) (start E tag junk) es := by
  refine along_of_step (I := Settled) (fun _ _ _ hi hd hs => step_settled hi hd hs) ?_
    (start_settled tag junk) hd h
  intro s ev t hi _ hs hc
  right
  left
  have hone := hi.orderly.1
  cases (Session.stepped_of_step hs).2 with
  | read e bytes ops hr hb =>
    change s.reads - 1 = 0
    omega
  | write i e hlt =>
    change s.reads = 0
    omega
  | asyncReplyDone hp =>
    obtain ⟨r, hx⟩ := hi.notified_of_posted hp
    have hstage := hi.staged.stage
    rw [hx] at hstage
    exact hstage.1
  | handshake e hh => exact hc.elim
  | expire hp => exact hc.elim
  | timer i c timer hdeq => exact hc.elim
  | handler op hl => exact hc.elim

end HttpConnection

end CsiHttp.Server

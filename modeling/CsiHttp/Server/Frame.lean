import CsiHttp.Server.HttpConnection
import CsiHttp.Server.HttpsConnection

/-!
# What the actions of a connection leave alone

Reads are the only steps that run parser callbacks or call a handler. Every other step
is quiet: it keeps the parser and the completeness flag, keeps the reply buffer once
there is one, and cannot crash then. The smaller class of calm steps does not touch the
connection at all. A step of either transport is quiet or a successful read.
-/
namespace CsiHttp.Server

open Lib Lib.Text

/-- Neither a parser callback nor a dispatch. -/
def Obs.Quiet : Obs → Prop
  | .callback _ => False
  | .parsed _ _ => False
  | .dispatched _ => False
  | _ => True

/-- No wait for `handle_async_call` is pending or queued. -/
def NoAsyncCall (t : DeadlineTimer Waiter) : Prop :=
  (∀ w ∈ t.pending, w.handler = .handleTimer) ∧ ∀ c ∈ t.queued, c.wait.handler = .handleTimer

namespace Session

variable {State : Type} {s t u : Session State}

structure Quiet (s t : Session State) : Prop where
  parser : t.conn.parser = s.conn.parser
  complete : t.conn.requestComplete = s.conn.requestComplete
  buffer : s.conn.reply.HasBuffer → t.conn.reply.HasBuffer
  fault : s.conn.reply.HasBuffer → t.fault = s.fault
  log : ∃ l, t.log = s.log ++ l ∧ ∀ o ∈ l, o.Quiet

structure Calm (s t : Session State) : Prop where
  conn : t.conn = s.conn
  writes : t.writes = s.writes
  posted : t.posted = s.posted
  lent : t.lent = s.lent
  fault : t.fault = s.fault
  timer : NoAsyncCall s.timer → NoAsyncCall t.timer
  log : ∃ l, t.log = s.log ++ l ∧ ∀ o ∈ l, o = .readStarted ∨ ∃ w, o = .timedOut w

theorem Quiet.refl (s : Session State) : Quiet s s :=
  ⟨rfl, rfl, id, fun _ => rfl, [], (List.append_nil _).symm, List.forall_mem_nil _⟩

theorem Quiet.trans (h : Quiet s t) (h' : Quiet t u) : Quiet s u := by
  obtain ⟨l, hl, hq⟩ := h.log
  obtain ⟨l', hl', hq'⟩ := h'.log
  refine ⟨h'.parser.trans h.parser, h'.complete.trans h.complete, fun hb => h'.buffer (h.buffer hb),
    fun hb => (h'.fault (h.buffer hb)).trans (h.fault hb), l ++ l', ?_, ?_⟩
  · rw [hl', hl, List.append_assoc]
  · exact List.forall_mem_append.mpr ⟨hq, hq'⟩

theorem Calm.refl (s : Session State) : Calm s s :=
  ⟨rfl, rfl, rfl, rfl, rfl, id, [], (List.append_nil _).symm, List.forall_mem_nil _⟩

theorem Calm.trans (h : Calm s t) (h' : Calm t u) : Calm s u := by
  obtain ⟨l, hl, hq⟩ := h.log
  obtain ⟨l', hl', hq'⟩ := h'.log
  refine ⟨h'.conn.trans h.conn, h'.writes.trans h.writes, h'.posted.trans h.posted,
    h'.lent.trans h.lent, h'.fault.trans h.fault, fun hn => h'.timer (h.timer hn), l ++ l', ?_, ?_⟩
  · rw [hl', hl, List.append_assoc]
  · exact List.forall_mem_append.mpr ⟨hq, hq'⟩

theorem Calm.quiet (h : Calm s t) : Quiet s t := by
  obtain ⟨l, hl, hc⟩ := h.log
  refine ⟨congrArg _ h.conn, congrArg _ h.conn, fun hb => by rwa [h.conn], fun _ => h.fault, l, hl,
    fun o ho => ?_⟩
  rcases hc o ho with rfl | ⟨w, rfl⟩ <;> trivial

theorem Quiet.of_same (hc : t.conn = s.conn) (hf : t.fault = s.fault) (hl : t.log = s.log) :
    Quiet s t :=
  ⟨congrArg _ hc, congrArg _ hc, fun h => by rwa [hc], fun _ => hf, [],
    by rw [hl, List.append_nil], List.forall_mem_nil _⟩

theorem Calm.of_same (hc : t.conn = s.conn) (hw : t.writes = s.writes) (hp : t.posted = s.posted)
    (hl : t.lent = s.lent) (hf : t.fault = s.fault)
    (ht : NoAsyncCall s.timer → NoAsyncCall t.timer) (hlog : t.log = s.log) : Calm s t :=
  ⟨hc, hw, hp, hl, hf, ht, [], by rw [hlog, List.append_nil], List.forall_mem_nil _⟩

/-! ## The timer -/

theorem noAsyncCall_expire {m : DeadlineTimer Waiter} (h : NoAsyncCall m) : NoAsyncCall m.expire := by
  refine ⟨List.forall_mem_nil _, ?_⟩
  rw [DeadlineTimer.expire_queued, List.forall_mem_append, List.forall_mem_map]
  exact ⟨h.2, h.1⟩

theorem noAsyncCall_cancel {m : DeadlineTimer Waiter} (h : NoAsyncCall m) : NoAsyncCall m.cancel := by
  refine ⟨List.forall_mem_nil _, ?_⟩
  rw [DeadlineTimer.cancel_queued, List.forall_mem_append, List.forall_mem_map]
  exact ⟨h.2, h.1⟩

theorem noAsyncCall_arm {m : DeadlineTimer Waiter} (h : NoAsyncCall m) (ms : Nat) :
    NoAsyncCall ((m.expiresFromNow ms).asyncWait .handleTimer) := by
  refine ⟨?_, (noAsyncCall_cancel h).2⟩
  intro w hw
  obtain rfl := List.mem_singleton.mp hw
  rfl

theorem noAsyncCall_dequeue {m m' : DeadlineTimer Waiter} {i : Nat} {c : Completion Waiter}
    (h : NoAsyncCall m) (hd : m.dequeue i = some (c, m')) :
    NoAsyncCall m' ∧ c.wait.handler = .handleTimer := by
  obtain ⟨hc, rfl⟩ := DeadlineTimer.dequeue_eq_some hd
  exact ⟨⟨h.1, fun c' hc' => h.2 c' (List.mem_of_mem_eraseIdx hc')⟩, h.2 c (List.mem_of_getElem? hc)⟩

/-! ## Steps -/

/-- What may happen next in the state `s`, and what the transport then does. -/
inductive Stepped (E : Externals) (T : Transport State) (s : Session State) :
    Event → Session State → Prop where
  | handshake (e : ErrorCode) (hh : 0 < s.handshakes) :
      Stepped E T s (.handshake e) (T.handleHandshake e { s with handshakes := s.handshakes - 1 })
  | read (e : ErrorCode) (bytes : Bytes) (ops : List HandlerOp) (hr : 0 < s.reads)
      (hb : fillsBuffer e bytes = true) :
      Stepped E T s (.read e bytes ops) (T.handleRead e bytes ops { s with reads := s.reads - 1 })
  | write (i : Nat) (e : ErrorCode) (hi : i < s.writes.length) :
      Stepped E T s (.write i e) (T.handleWrite e { s with writes := s.writes.eraseIdx i })
  | expire (hp : s.timer.pending ≠ []) : Stepped E T s .expire { s with timer := s.timer.expire }
  | timer (i : Nat) (c : Completion Waiter) (timer : DeadlineTimer Waiter)
      (hd : s.timer.dequeue i = some (c, timer)) :
      Stepped E T s (.timer i) (T.handleWait c.wait c.code { s with timer := timer })
  | asyncReplyDone (hp : 0 < s.posted) :
      Stepped E T s .asyncReplyDone (T.handleAsyncReplyDone { s with posted := s.posted - 1 })
  | handler (op : HandlerOp) (hl : s.lent = true) :
      Stepped E T s (.handler op) (s.handlerOp E T.async op)

theorem stepped_of_step {E : Externals} {T : Transport State} {ev : Event}
    (h : s.step E T ev = some t) : s.fault = none ∧ Stepped E T s ev t := by
  obtain ⟨hf, h⟩ := Option.ite_none_left_eq_some.mp h
  refine ⟨by simpa using hf, ?_⟩
  -- all but one of the events are guarded by a condition
  have hguard : ∀ {p : Prop} [Decidable p] {u : Session State},
      (if p then some u else none) = some t → p ∧ u = t := by
    intro p _ u hg
    obtain ⟨hp, hu⟩ := Option.ite_none_right_eq_some.mp hg
    exact ⟨hp, Option.some.inj hu⟩
  cases ev with
  | handshake e =>
    obtain ⟨hh, rfl⟩ := hguard h
    exact .handshake e hh
  | read e bytes ops =>
    obtain ⟨⟨hr, hb⟩, rfl⟩ := hguard h
    exact .read e bytes ops hr hb
  | write i e =>
    obtain ⟨hi, rfl⟩ := hguard h
    exact .write i e hi
  | expire =>
    obtain ⟨hp, rfl⟩ := hguard h
    exact .expire hp
  | timer i =>
    dsimp only at h
    split at h
    · rename_i c timer hd
      obtain rfl := Option.some.inj h
      exact .timer i c timer hd
    · cases h
  | asyncReplyDone =>
    obtain ⟨hp, rfl⟩ := hguard h
    exact .asyncReplyDone hp
  | handler op =>
    obtain ⟨hl, rfl⟩ := hguard h
    exact .handler op hl

/-! ## Calm actions -/

theorem calm_arm (s : Session State) (ms : Nat) : Calm s (s.arm ms .handleTimer) :=
  .of_same rfl rfl rfl rfl rfl (fun h => noAsyncCall_arm h ms) rfl

theorem calm_cancelTimer (s : Session State) : Calm s s.cancelTimer :=
  .of_same rfl rfl rfl rfl rfl noAsyncCall_cancel rfl

theorem calm_startRead (s : Session State) : Calm s s.startRead :=
  ⟨rfl, rfl, rfl, rfl, rfl, id, [.readStarted], rfl, List.forall_mem_singleton.mpr (Or.inl rfl)⟩

theorem calm_timedOut (s : Session State) (w : Wait Waiter) : Calm s (s.note (.timedOut w)) :=
  ⟨rfl, rfl, rfl, rfl, rfl, id, [.timedOut w], rfl, List.forall_mem_singleton.mpr (Or.inr ⟨w, rfl⟩)⟩

theorem calm_readMore (s : Session State) : Calm s s.readMore :=
  (calm_arm s 5000).trans (calm_startRead _)

/-! ## Quiet actions -/

theorem quiet_note (s : Session State) (o : Obs) (h : o.Quiet) : Quiet s (s.note o) :=
  ⟨rfl, rfl, id, fun _ => rfl, [o], rfl, List.forall_mem_singleton.mpr h⟩

theorem quiet_arm (s : Session State) (ms : Nat) (w : Waiter) : Quiet s (s.arm ms w) :=
  .of_same rfl rfl rfl

theorem quiet_setWaiting (s : Session State) (b : Bool) : Quiet s (s.setWaiting b) :=
  ⟨rfl, rfl, id, fun _ => rfl, [], (List.append_nil _).symm, List.forall_mem_nil _⟩

theorem quiet_setReply (s : Session State) {r : Reply}
    (h : s.conn.reply.HasBuffer → r.HasBuffer) : Quiet s (s.setReply r) :=
  ⟨rfl, rfl, h, fun _ => rfl, [], (List.append_nil _).symm, List.forall_mem_nil _⟩

theorem quiet_addClose (s : Session State) : Quiet s s.addClose := by
  unfold addClose
  split
  · exact .refl s
  · exact quiet_setReply s id

/-- Using a reply that cannot fail as long as it has its buffer. -/
theorem quiet_takeReply (s : Session State) {x : Except Fault Reply}
    (h : s.conn.reply.HasBuffer → ∃ r, x = .ok r ∧ r.HasBuffer) : Quiet s (s.takeReply x) := by
  cases x with
  | ok r =>
    refine quiet_setReply s (fun hb => ?_)
    obtain ⟨r', hr, hb'⟩ := h hb
    cases hr
    exact hb'
  | error f =>
    refine ⟨rfl, rfl, id, fun hb => ?_, [], (List.append_nil _).symm, List.forall_mem_nil _⟩
    obtain ⟨r, hr, -⟩ := h hb
    cases hr

/-- What an action keeps is kept whether or not the program has crashed before it. -/
theorem andThen_induction {I : Session State → Prop} {f : Session State → Session State}
    (h : I s) (hf : I s → I (f s)) : I (s.andThen f) := by
  unfold andThen
  split
  · exact h
  · exact hf h

theorem quiet_andThen {f : Session State → Session State} (h : Quiet s t)
    (hf : ∀ s, Quiet s (f s)) : Quiet s (t.andThen f) :=
  andThen_induction h (fun h => h.trans (hf t))

theorem quiet_startWrite (s : Session State) : Quiet s s.startWrite := by
  unfold startWrite
  cases hb : s.conn.reply.toBuffers with
  | error f =>
    refine ⟨rfl, rfl, id, fun h => ?_, [], (List.append_nil _).symm, List.forall_mem_nil _⟩
    obtain ⟨r, bufs, hok, -⟩ := Reply.toBuffers_ok h
    rw [hok] at hb
    cases hb
  | ok p =>
    refine ⟨rfl, rfl, fun h => ?_, fun _ => rfl, [.replied p.1 p.2], rfl,
      List.forall_mem_singleton.mpr trivial⟩
    obtain ⟨r, bufs, hok, htx⟩ := Reply.toBuffers_ok h
    rw [hok] at hb
    cases hb
    change r.txBuffer.isSome = true
    rw [htx]
    exact h

variable (E : Externals)

theorem quiet_requestId (s : Session State) (h : Bytes) : Quiet s (s.requestId E h) :=
  ⟨rfl, rfl, id, fun _ => rfl, [], (List.append_nil _).symm, List.forall_mem_nil _⟩

theorem quiet_requestUuid (s : Session State) (h : Bytes) : Quiet s (s.requestUuid E h) :=
  ⟨rfl, rfl, id, fun _ => rfl, [], (List.append_nil _).symm, List.forall_mem_nil _⟩

theorem quiet_logRequestId (s : Session State) : Quiet s (s.logRequestId E) :=
  (quiet_requestId E s _).trans (quiet_note _ _ trivial)

theorem quiet_logRequest (s : Session State) : Quiet s (s.logRequest E) :=
  (quiet_logRequestId E s).trans (quiet_note _ _ trivial)

theorem quiet_sendReply (s : Session State) : Quiet s (s.sendReply E) :=
  ((((quiet_note s (.replying _) trivial).trans (quiet_logRequest E _)).trans
    (quiet_setWaiting _ false)).trans (quiet_addClose _)).trans (quiet_startWrite _)

theorem quiet_badRequest (s : Session State) : Quiet s (s.badRequest E) := by
  refine quiet_andThen (quiet_takeReply s (fun hb => ?_)) (quiet_sendReply E)
  obtain ⟨r, hr, htx⟩ := Reply.create_ok hb .badRequest Reply.textHtml 0
  exact ⟨r, hr, by unfold Reply.HasBuffer; rwa [htx]⟩

theorem badRequest_null_eq {s : Session State} (h : ¬ s.conn.reply.HasBuffer) :
    s.badRequest E = s.crash .nullReplyBuffer := by
  unfold badRequest
  rw [Reply.create_null h]
  rfl

theorem badRequest_null (s : Session State) (h : ¬ s.conn.reply.HasBuffer) :
    (s.badRequest E).fault = some .nullReplyBuffer := by
  rw [badRequest_null_eq E h]
  rfl

/-- With its buffer the reply becomes a 400 and is sent. -/
theorem badRequest_eq {s : Session State} (h : s.conn.reply.HasBuffer) (hf : s.fault = none) :
    ∃ r, s.conn.reply.create .badRequest Reply.textHtml 0 = .ok r ∧
      r.txBuffer = s.conn.reply.txBuffer ∧ s.badRequest E = (s.setReply r).sendReply E := by
  obtain ⟨r, hr, htx⟩ := Reply.create_ok h .badRequest Reply.textHtml 0
  refine ⟨r, hr, htx, ?_⟩
  unfold badRequest andThen
  rw [hr]
  change (if s.fault.isSome = true then _ else _) = _
  rw [hf]
  rfl

/-! ## Handlers -/

/-- The two virtual functions are quiet, and neither touches the request beyond its ids. -/
structure LawfulAsync (A : AsyncReply State) : Prop where
  wait : ∀ s, Quiet s (A.waitForAsyncReply s)
  notify : ∀ s, Quiet s (A.notifyAsyncReplyDone s)

variable {E} {A : AsyncReply State}

theorem quiet_handlerOp (hA : LawfulAsync A) (s : Session State) (op : HandlerOp) :
    Quiet s (s.handlerOp E A op) := by
  cases op with
  | writeContent bytes => exact quiet_takeReply s (fun hb => Reply.writeContent_ok hb bytes)
  | create status contentType extraHeaders =>
    refine quiet_takeReply s (fun hb => ?_)
    obtain ⟨r, hr, htx⟩ := Reply.create_ok hb status contentType extraHeaders
    exact ⟨r, hr, by unfold Reply.HasBuffer; rwa [htx]⟩
  | addHeader h => exact quiet_setReply s id
  | resetReply => exact quiet_setReply s (fun _ => Reply.reset_hasBuffer _)
  | requestId idHeader => exact quiet_requestId E s idHeader
  | requestUuid idHeader => exact quiet_requestUuid E s idHeader
  | waitForAsyncReply => exact hA.wait s
  | notifyAsyncReplyDone => exact hA.notify s

/-- What each action of a handler keeps, the handler keeps. -/
theorem handlerOps_induction {I : Session State → Prop} {ops : List HandlerOp}
    (hop : ∀ s, ∀ op ∈ ops, I s → I (s.handlerOp E A op)) (h : I s) : I (s.handlerOps E A ops) := by
  induction ops generalizing s with
  | nil => exact h
  | cons op ops ih =>
    have hone := hop s op (List.mem_cons_self ..) h
    refine andThen_induction hone (fun hone => ih ?_ hone)
    exact fun s op hmem => hop s op (List.mem_cons_of_mem _ hmem)

theorem quiet_handlerOps (hA : LawfulAsync A) (s : Session State) (ops : List HandlerOp) :
    Quiet s (s.handlerOps E A ops) :=
  handlerOps_induction (I := Quiet s) (fun t op _ h => h.trans (quiet_handlerOp hA t op)) (.refl s)

/-- A call of the handler surrounded by quiet actions. -/
structure Dispatches (s t : Session State) (r : Request) : Prop where
  parser : t.conn.parser = s.conn.parser
  complete : t.conn.requestComplete = s.conn.requestComplete
  buffer : s.conn.reply.HasBuffer → t.conn.reply.HasBuffer
  fault : s.conn.reply.HasBuffer → t.fault = s.fault
  log : ∃ l l', t.log = s.log ++ l ++ .dispatched r :: l' ∧ (∀ o ∈ l, o.Quiet) ∧ ∀ o ∈ l', o.Quiet

theorem dispatches_of_quiet {r : Request} {v w : Session State} (h : Quiet s t) (h' : Quiet w v)
    (hw : w = ({ t with lent := true } : Session State).note (.dispatched r)) :
    Dispatches s v r := by
  obtain ⟨l, hl, hq⟩ := h.log
  obtain ⟨l', hl', hq'⟩ := h'.log
  subst hw
  refine ⟨h'.parser.trans h.parser, h'.complete.trans h.complete, fun hb => h'.buffer (h.buffer hb),
    fun hb => (h'.fault (h.buffer hb)).trans (h.fault hb), l, l', ?_, hq, hq'⟩
  rw [hl']
  change t.log ++ _ ++ _ = _
  rw [hl, List.append_assoc, List.append_assoc, List.append_assoc]
  rfl

theorem dispatch_dispatches (hA : LawfulAsync A) {prepare : Session State → Session State}
    (hp : ∀ s, Quiet s (prepare s)) (ops : List HandlerOp) (s : Session State) :
    Dispatches s (s.dispatch E A prepare ops) ((prepare s).logRequest E).conn.request := by
  refine dispatches_of_quiet ((hp s).trans (quiet_logRequest E _)) (quiet_andThen ?_ ?_) rfl
  · exact quiet_handlerOps hA _ ops
  · intro s
    split
    · exact quiet_arm s _ _
    · exact quiet_sendReply E s

/-! ## Relations that the actions keep -/

/-- Kept by the log lines and by what a handler does to the reply and to the id. -/
structure Kept (E : Externals) (R : Session State → Session State → Prop) : Prop where
  refl : ∀ s, R s s
  trans : ∀ {s t u}, R s t → R t u → R s u
  crash : ∀ s f, R s (s.crash f)
  setReply : ∀ s r, R s (s.setReply r)
  requestId : ∀ s idHeader, R s (s.requestId E idHeader)
  idLogged : ∀ s, R s (s.note (.requestIdLogged s.conn.request.requestId))
  methodLogged : ∀ s, R s (s.note (.methodLogged s.conn.request.method))

/-- Kept by the reply as well. -/
structure KeptBySending (E : Externals) (R : Session State → Session State → Prop) : Prop
    extends Kept E R where
  replying : ∀ s, R s (s.note (.replying s.conn.reply))
  setWaiting : ∀ s b, R s (s.setWaiting b)
  replied : ∀ s r bufs,
    R s (({ s.setReply r with writes := s.writes ++ [Write.mk r bufs] } : Session State).note
      (.replied r bufs))

section Kept

variable {R : Session State → Session State → Prop}

theorem Kept.takeReply (h : Kept E R) (s : Session State) (x : Except Fault Reply) :
    R s (s.takeReply x) := by
  cases x with
  | ok r => exact h.setReply s r
  | error f => exact h.crash s f

theorem Kept.andThen {f : Session State → Session State} (h : Kept E R) (hst : R s t)
    (hf : R t (f t)) : R s (t.andThen f) :=
  andThen_induction hst (fun hst => h.trans hst hf)

theorem Kept.logRequestId (h : Kept E R) (s : Session State) : R s (s.logRequestId E) :=
  h.trans (h.requestId s _) (h.idLogged _)

theorem Kept.logRequest (h : Kept E R) (s : Session State) : R s (s.logRequest E) :=
  h.trans (h.logRequestId s) (h.methodLogged _)

/-- Handlers that ask for a uuid are treated apart, and so are the two virtual functions. -/
theorem Kept.handlerOp (h : Kept E R) (hwait : ∀ s, R s (A.waitForAsyncReply s))
    (hnotify : ∀ s, R s (A.notifyAsyncReplyDone s)) (s : Session State) {op : HandlerOp}
    (huuid : ∀ idHeader, op = .requestUuid idHeader → R s (s.requestUuid E idHeader)) :
    R s (s.handlerOp E A op) := by
  cases op with
  | writeContent bytes => exact h.takeReply s _
  | create status contentType extraHeaders => exact h.takeReply s _
  | addHeader hdr => exact h.setReply s _
  | resetReply => exact h.setReply s _
  | requestId idHeader => exact h.requestId s idHeader
  | requestUuid idHeader => exact huuid idHeader rfl
  | waitForAsyncReply => exact hwait s
  | notifyAsyncReplyDone => exact hnotify s

theorem Kept.handlerOps (h : Kept E R) (hwait : ∀ s, R s (A.waitForAsyncReply s))
    (hnotify : ∀ s, R s (A.notifyAsyncReplyDone s)) (s : Session State) {ops : List HandlerOp}
    (huuid : ∀ s, ∀ idHeader, .requestUuid idHeader ∈ ops → R s (s.requestUuid E idHeader)) :
    R s (s.handlerOps E A ops) := by
  refine handlerOps_induction (I := R s) ?_ (h.refl s)
  intro t op hmem hst
  exact h.trans hst (h.handlerOp hwait hnotify t (fun _ hop => huuid t _ (hop ▸ hmem)))

theorem KeptBySending.addClose (h : KeptBySending E R) (s : Session State) : R s s.addClose := by
  unfold Session.addClose
  split
  · exact h.refl s
  · exact h.setReply s _

theorem KeptBySending.startWrite (h : KeptBySending E R) (s : Session State) : R s s.startWrite := by
  unfold Session.startWrite
  split
  · exact h.crash s _
  · exact h.replied s _ _

theorem KeptBySending.sendReply (h : KeptBySending E R) (s : Session State) : R s (s.sendReply E) := by
  have hlogged := h.trans (h.replying s) (h.logRequest _)
  have hwaiting := h.trans hlogged (h.setWaiting _ false)
  exact h.trans (h.trans hwaiting (h.addClose _)) (h.startWrite _)

theorem KeptBySending.badRequest (h : KeptBySending E R) (s : Session State) :
    R s (s.badRequest E) :=
  h.andThen (h.takeReply s _) (h.sendReply _)

/-- The call of the handler, and what follows it in `handle_read`. -/
theorem KeptBySending.handled (h : KeptBySending E R) (hwait : ∀ s, R s (A.waitForAsyncReply s))
    (hnotify : ∀ s, R s (A.notifyAsyncReplyDone s)) (s : Session State) {ops : List HandlerOp}
    (huuid : ∀ s, ∀ idHeader, .requestUuid idHeader ∈ ops → R s (s.requestUuid E idHeader))
    (hlend : ∀ s, R s (({ s with lent := true } : Session State).note (.dispatched s.conn.request)))
    (harm : ∀ s, R s (s.arm 3605000 .handleTimer)) :
    R s ((s.handleRequest E A ops).andThen (fun s =>
      if s.conn.waitingForAsyncReply then s.arm 3605000 .handleTimer else s.sendReply E)) := by
  refine h.andThen (h.trans (hlend s) (h.handlerOps hwait hnotify _ huuid)) ?_
  split
  · exact harm _
  · exact h.sendReply _

end Kept

end Session

/-! ## Successful reads -/

section Reads

variable {E : Externals} {A : AsyncReply E.parser.State}
variable {prepare : Session E.parser.State → Session E.parser.State}

open Session

theorem readSucceeded_rejected {s : Session E.parser.State} {bytes : Bytes} {n : Nat}
    (h : (s.conn.httpParse E.parser bytes).result = .ok n) (hn : n ≠ bytes.length)
    (ops : List HandlerOp) : s.readSucceeded E A prepare bytes ops =
      ((s.parse E bytes).note (.parsed bytes.length n)).badRequest E := by
  unfold readSucceeded
  rw [h]
  exact if_pos hn

theorem readSucceeded_completed {s : Session E.parser.State} {bytes : Bytes}
    (h : (s.conn.httpParse E.parser bytes).result = .ok bytes.length)
    (hc : (s.conn.httpParse E.parser bytes).conn.requestComplete = true) (ops : List HandlerOp) :
    s.readSucceeded E A prepare bytes ops =
      ((s.parse E bytes).note (.parsed bytes.length bytes.length)).dispatch E A prepare ops := by
  unfold readSucceeded
  rw [h]
  dsimp only
  rw [if_neg (fun hne => hne rfl)]
  exact if_pos hc

theorem readSucceeded_more {s : Session E.parser.State} {bytes : Bytes}
    (h : (s.conn.httpParse E.parser bytes).result = .ok bytes.length)
    (hc : (s.conn.httpParse E.parser bytes).conn.requestComplete ≠ true) (ops : List HandlerOp) :
    s.readSucceeded E A prepare bytes ops =
      ((s.parse E bytes).note (.parsed bytes.length bytes.length)).readMore := by
  unfold readSucceeded
  rw [h]
  dsimp only
  rw [if_neg (fun hne => hne rfl)]
  exact if_neg hc

/-- How a successful read goes on after `http_parse`. -/
inductive ReadOutcome (E : Externals) (bytes : Bytes) (s t : Session E.parser.State) : Prop where
  | crashed (f : Fault) (h : (s.conn.httpParse E.parser bytes).result = .error f)
      (ht : t = (s.parse E bytes).crash f)
  | rejected (n : Nat) (h : (s.conn.httpParse E.parser bytes).result = .ok n)
      (hn : n ≠ bytes.length) (ht : Quiet ((s.parse E bytes).note (.parsed bytes.length n)) t)
      (hb : ¬ (s.parse E bytes).conn.reply.HasBuffer → t.fault = some .nullReplyBuffer)
  | dispatched (r : Request) (h : (s.conn.httpParse E.parser bytes).result = .ok bytes.length)
      (hc : (s.parse E bytes).conn.requestComplete = true)
      (hr : r.view = (s.parse E bytes).conn.request.view)
      (ht : Dispatches ((s.parse E bytes).note (.parsed bytes.length bytes.length)) t r)
  | more (h : (s.conn.httpParse E.parser bytes).result = .ok bytes.length)
      (hc : (s.parse E bytes).conn.requestComplete = false)
      (ht : Calm ((s.parse E bytes).note (.parsed bytes.length bytes.length)) t)

theorem readSucceeded_outcome (hA : LawfulAsync A) (hp : ∀ s, Quiet s (prepare s))
    (hv : ∀ s, (prepare s).conn.request.view = s.conn.request.view) (bytes : Bytes)
    (ops : List HandlerOp) (s : Session E.parser.State) :
    ReadOutcome E bytes s (s.readSucceeded E A prepare bytes ops) := by
  unfold readSucceeded
  cases h : (s.conn.httpParse E.parser bytes).result with
  | error f => exact .crashed f h rfl
  | ok n =>
    dsimp only
    by_cases hn : n = bytes.length
    · subst hn
      rw [if_neg (fun hne => hne rfl)]
      split
      · rename_i hc
        have hview : ∀ u, ((prepare u).logRequest E).conn.request.view = u.conn.request.view :=
          fun u => (Request.fillRequestId_view _ _ _ _).trans (hv u)
        exact .dispatched _ h hc (hview ((s.parse E bytes).note (.parsed bytes.length bytes.length)))
          (dispatch_dispatches hA hp ops _)
      · rename_i hc
        exact .more h (Bool.not_eq_true _ ▸ hc) (calm_readMore _)
    · rw [if_pos hn]
      refine .rejected n h hn (quiet_badRequest E _) ?_
      exact badRequest_null E ((s.parse E bytes).note (.parsed bytes.length n))

end Reads

/-! ## Both transports -/

/-- What the two transports have in common. -/
structure Transport.Lawful {E : Externals} (T : Transport E.parser.State) : Prop where
  async : Session.LawfulAsync T.async
  handshake : ∀ e s, Session.Calm s (T.handleHandshake e s)
  read : ∃ prepare enter : Session E.parser.State → Session E.parser.State,
    (∀ s, Session.Quiet s (prepare s)) ∧
      (∀ s, (prepare s).conn.request.view = s.conn.request.view) ∧
      (∀ s, Session.Calm s (enter s)) ∧ ∀ bytes ops s, T.handleRead .success bytes ops s =
        (enter s).readSucceeded E T.async prepare bytes ops
  readFailed : ∀ e bytes ops s, e ≠ .success → Session.Calm s (T.handleRead e bytes ops s)
  write : ∀ e s, Session.Quiet s (T.handleWrite e s)
  wait : ∀ w e s, Session.Quiet s (T.handleWait w e s)
  timer : ∀ w e s, w.handler = .handleTimer → Session.Calm s (T.handleWait w e s)
  asyncReplyDone : ∀ s, Session.Quiet s (T.handleAsyncReplyDone s)

section Lawful

open Session

theorem HttpConnection.lawful (E : Externals) : (HttpConnection.transport E).Lawful where
  async :=
    { wait := fun s => ((quiet_note s .deferred trivial).trans (quiet_setWaiting _ true)).trans
        (quiet_arm _ _ _)
      notify := fun s => ((quiet_note s (.notified _) trivial).trans (quiet_logRequestId E _)).trans
        (.of_same rfl rfl rfl) }
  handshake _ s := .refl s
  read := ⟨id, Session.cancelTimer, Quiet.refl, fun _ => rfl, calm_cancelTimer, fun _ _ _ => rfl⟩
  readFailed e bytes ops s he := by
    cases e with
    | success => exact absurd rfl he
    | operationAborted => exact .refl s
    | failure => exact calm_cancelTimer s
  write e s := by
    have hreset : Quiet s
        { s.setReply s.conn.reply.reset with
          conn := { (s.setReply s.conn.reply.reset).conn with request := s.conn.request.reset } } :=
      ⟨rfl, rfl, fun _ => Reply.reset_hasBuffer _, fun _ => rfl, [], (List.append_nil _).symm,
        List.forall_mem_nil _⟩
    change Quiet s (HttpConnection.handleWrite e s)
    unfold HttpConnection.handleWrite
    cases e with
    | operationAborted => exact .refl s
    | success =>
      dsimp only
      split
      · exact ((hreset.trans (calm_cancelTimer _).quiet).trans (calm_arm _ _).quiet).trans
          (calm_startRead _).quiet
      · exact (calm_cancelTimer s).quiet
    | failure =>
      dsimp only
      split
      · exact .refl s
      · exact (calm_cancelTimer s).quiet
  wait w e s := by
    cases e with
    | success => exact (calm_timedOut s w).quiet
    | operationAborted => exact .refl s
    | failure => exact .refl s
  timer w e s _ := by
    cases e with
    | success => exact calm_timedOut s w
    | operationAborted => exact .refl s
    | failure => exact .refl s
  asyncReplyDone s := (calm_cancelTimer s).quiet.trans (quiet_sendReply E _)

theorem HttpsConnection.lawful (E : Externals) : (HttpsConnection.transport E).Lawful where
  async :=
    { wait := fun s => ((quiet_note s .deferred trivial).trans (quiet_setWaiting _ true)).trans
        (quiet_arm _ _ _)
      notify := fun s => ((quiet_note s (.notified _) trivial).trans (quiet_logRequestId E _)).trans
        (calm_cancelTimer _).quiet }
  handshake e s := by
    cases e with
    | success => exact calm_startRead s
    | operationAborted => exact .refl s
    | failure => exact .refl s
  read := ⟨fun s => s.requestUuid E Request.defaultIdHeader, id,
    fun s => quiet_requestUuid E s _, fun _ => Request.fillRequestUuid_view _ _ _ _, Calm.refl,
    fun _ _ _ => rfl⟩
  readFailed e bytes ops s he := by
    cases e with
    | success => exact absurd rfl he
    | operationAborted => exact .refl s
    | failure => exact .refl s
  write e s := by
    cases e with
    | operationAborted => exact .refl s
    | success =>
      exact (((quiet_setReply s (fun _ => Reply.reset_hasBuffer _)).trans
        (calm_cancelTimer _).quiet).trans (calm_arm _ _).quiet).trans (calm_startRead _).quiet
    | failure => exact .refl s
  wait w e s := by
    obtain ⟨h, epoch⟩ := w
    cases h <;> cases e
    · exact (calm_timedOut s _).quiet
    · exact .refl s
    · exact .refl s
    · exact (calm_timedOut s _).quiet
    · exact quiet_sendReply E s
    · exact .refl s
  timer w e s hw := by
    obtain ⟨h, epoch⟩ := w
    cases hw
    cases e with
    | success => exact calm_timedOut s _
    | operationAborted => exact .refl s
    | failure => exact .refl s
  asyncReplyDone s := .refl s

/-- What an event that is not calm and no successful read needs to come from. -/
def Touches {State : Type} (s : Session State) : Event → Prop
  | .write _ _ => s.writes ≠ []
  | .timer _ => ¬ NoAsyncCall s.timer
  | .asyncReplyDone => 0 < s.posted
  | .handler _ => s.lent = true
  | _ => False

/-- Nothing is under way but reads. -/
structure OnlyReads {State : Type} (s : Session State) : Prop where
  writes : s.writes = []
  posted : s.posted = 0
  lent : s.lent = false
  timer : NoAsyncCall s.timer

theorem OnlyReads.calm {State : Type} {s t : Session State} (h : OnlyReads s) (hc : Calm s t) :
    OnlyReads t where
  writes := hc.writes.trans h.writes
  posted := hc.posted.trans h.posted
  lent := hc.lent.trans h.lent
  timer := hc.timer h.timer

theorem OnlyReads.not_touches {State : Type} {s : Session State} (h : OnlyReads s) (ev : Event) :
    ¬ Touches s ev := by
  cases ev with
  | write i e => exact fun ht => ht h.writes
  | timer i => exact fun ht => ht h.timer
  | asyncReplyDone => exact fun ht => absurd h.posted (Nat.pos_iff_ne_zero.mp ht)
  | handler op => exact fun ht => Bool.false_ne_true (h.lent.symm.trans ht)
  | handshake _ | read _ _ _ | expire => exact id

/-- What one step of a transport can be. -/
inductive StepOutcome {E : Externals} (s : Session E.parser.State) (ev : Event)
    (t : Session E.parser.State) : Prop where
  | read (bytes : Bytes) (ops : List HandlerOp) (s' : Session E.parser.State)
      (hev : ev = .read .success bytes ops) (hb : fillsBuffer .success bytes) (hs : Calm s s')
      (ht : ReadOutcome E bytes s' t)
  | calm (hev : ∀ bytes ops, ev ≠ .read .success bytes ops) (ht : Calm s t)
  | quiet (hev : ∀ bytes ops, ev ≠ .read .success bytes ops) (ht : Quiet s t)
      (htouched : Touches s ev)

theorem step_outcome {E : Externals} {T : Transport E.parser.State} (hT : T.Lawful)
    {s t : Session E.parser.State} {ev : Event} (h : s.step E T ev = some t) :
    s.fault = none ∧ StepOutcome s ev t := by
  obtain ⟨hf, hstep⟩ := stepped_of_step h
  refine ⟨hf, ?_⟩
  cases hstep with
  | handshake e hh =>
    have hdec : Calm s { s with handshakes := s.handshakes - 1 } :=
      .of_same rfl rfl rfl rfl rfl id rfl
    exact .calm (fun _ _ => Event.noConfusion) (hdec.trans (hT.handshake e _))
  | read e bytes ops hr hb =>
    have hdec : Calm s { s with reads := s.reads - 1 } :=
      .of_same rfl rfl rfl rfl rfl id rfl
    by_cases he : e = .success
    · subst he
      obtain ⟨prepare, enter, hp, hv, henter, hread⟩ := hT.read
      rw [hread]
      exact .read bytes ops _ rfl hb (hdec.trans (henter _))
        (readSucceeded_outcome hT.async hp hv bytes ops _)
    · exact .calm (fun _ _ hev => he (Event.read.inj hev).1)
        (hdec.trans (hT.readFailed e bytes ops _ he))
  | write i e hi =>
    have hdec : Quiet s { s with writes := s.writes.eraseIdx i } := .of_same rfl rfl rfl
    exact .quiet (fun _ _ => Event.noConfusion) (hdec.trans (hT.write e _))
      (List.ne_nil_of_length_pos (Nat.zero_lt_of_lt hi))
  | expire hp =>
    exact .calm (fun _ _ => Event.noConfusion)
      (.of_same rfl rfl rfl rfl rfl noAsyncCall_expire rfl)
  | timer i c timer hd =>
    by_cases hn : NoAsyncCall s.timer
    · obtain ⟨hn', hc⟩ := noAsyncCall_dequeue hn hd
      have hdec : Calm s { s with timer := timer } :=
        .of_same rfl rfl rfl rfl rfl (fun _ => hn') rfl
      exact .calm (fun _ _ => Event.noConfusion) (hdec.trans (hT.timer c.wait c.code _ hc))
    · have hdec : Quiet s { s with timer := timer } := .of_same rfl rfl rfl
      exact .quiet (fun _ _ => Event.noConfusion) (hdec.trans (hT.wait c.wait c.code _)) hn
  | asyncReplyDone hp =>
    have hdec : Quiet s { s with posted := s.posted - 1 } := .of_same rfl rfl rfl
    exact .quiet (fun _ _ => Event.noConfusion) (hdec.trans (hT.asyncReplyDone _)) hp
  | handler op hl =>
    exact .quiet (fun _ _ => Event.noConfusion) (quiet_handlerOp hT.async s op) hl

theorem Session.Quiet.log_prefix {State : Type} {s t : Session State} (h : Quiet s t) :
    s.log <+: t.log := by
  obtain ⟨l, hl, -⟩ := h.log
  exact ⟨l, hl.symm⟩

/-- The log only grows. -/
theorem step_log {E : Externals} {T : Transport E.parser.State} (hT : T.Lawful)
    {s t : Session E.parser.State} {ev : Event} (h : s.step E T ev = some t) : s.log <+: t.log := by
  obtain ⟨-, hout⟩ := step_outcome hT h
  cases hout with
  | calm _ ht => exact ht.quiet.log_prefix
  | quiet _ ht _ => exact ht.log_prefix
  | read bytes ops s' _ _ hs ht =>
    have hparse : s.log <+: (s'.parse E bytes).log :=
      hs.quiet.log_prefix.trans (List.prefix_append _ _)
    have hnote : ∀ n, s.log <+: ((s'.parse E bytes).note (.parsed bytes.length n)).log :=
      fun n => hparse.trans (List.prefix_append _ _)
    cases ht with
    | crashed f _ ht =>
      subst ht
      exact hparse
    | rejected n _ _ ht _ => exact (hnote n).trans ht.log_prefix
    | more _ _ ht => exact (hnote _).trans ht.quiet.log_prefix
    | dispatched r _ _ _ ht =>
      obtain ⟨l1, l2, hl, -, -⟩ := ht.log
      rw [hl, List.append_assoc]
      exact (hnote _).trans (List.prefix_append _ _)

end Lawful

end CsiHttp.Server

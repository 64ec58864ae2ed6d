import CsiHttp.Service.Dispatching

/-!
# Handlers that keep to their contract

On `http_connection` a handler either replies before it returns, or defers its reply once and
notifies once. When all handlers do, every connection of the system stays in order, and the
replies that the server gives by itself reach the client too.
-/
namespace CsiHttp.Service

open Lib Lib.Text Lib.Runs Server

/-- What the contract says about an activity of a connection. -/
def Activity.Disciplined {State : Type} (s : Session State) : Activity → Prop
  | .read e bytes r => Server.Disciplined s (.read e bytes r.ops)
  | .handler op => Server.Disciplined s (.handler op)
  | .complete _ | .copy | .release | .shutdown => True

instance {State : Type} (s : Session State) : (a : Activity) → Decidable (a.Disciplined s)
  | .read e bytes r => inferInstanceAs (Decidable (Server.Disciplined s (.read e bytes r.ops)))
  | .handler op => inferInstanceAs (Decidable (Server.Disciplined s (.handler op)))
  | .complete _ | .copy | .release | .shutdown => isTrue trivial

/-- The contract in a system. -/
def Contract {State : Type} (s : System State) : Event → Prop
  | .connection i a => ∀ p ∈ s.peer i, a.Disciplined p.session
  | .accept _ _ _ => True

instance {State : Type} (s : System State) : (ev : Event) → Decidable (Contract s ev)
  | .connection i a => inferInstanceAs (Decidable (∀ p ∈ s.peer i, a.Disciplined p.session))
  | .accept _ _ _ => isTrue trivial

/-! ## One connection -/

section Activities

variable {E : Externals} {patterns : List Bytes} {server : Server (Visit E.parser.State)}
variable {p : Peer E.parser.State} {a : Activity} {ran : Ran E.parser.State}

theorem disciplined_of_reaction {State : Type} {s : Session State} {e : ErrorCode} {bytes : Bytes}
    {r : Reaction} {ops : List HandlerOp} (h : (Activity.read e bytes r).Disciplined s)
    (hops : ops = r.ops ∨ ops = notFoundOps) : Server.Disciplined s (.read e bytes ops) := by
  cases e with
  | success =>
    rcases hops with rfl | rfl
    · exact h
    · rfl
  | operationAborted | failure => trivial

theorem disciplined_of_completion {State : Type} (s : Session State) {ev : Server.Event}
    (h : isCompletion ev = true) : Server.Disciplined s ev := by
  cases ev with
  | read _ _ _ | handler _ => cases h
  | handshake _ | write _ _ | expire | timer _ | asyncReplyDone => trivial

/-- Every activity that keeps to the contract leaves its connection in order. -/
theorem Acted.settled (hs : Registered (react E (HttpConnection.async E)) patterns server)
    (ha : Acted (http E) server p a ran) (hreg : ran.Regular) (hd : a.Disciplined p.session)
    (h : HttpConnection.Settled p.session) : HttpConnection.Settled ran.peer.session := by
  cases ha with
  | read e bytes r hr hb =>
    obtain ⟨ops, hops, hsession⟩ := handleRead_session (T := http E) hs e bytes r hreg
    rw [hsession]
    exact HttpConnection.handleRead_settled h hr e bytes (disciplined_of_reaction hd hops)
  | complete ev s hev hss => exact HttpConnection.step_settled h (disciplined_of_completion _ hev) hss
  | handler op s hh hss =>
    have hop : Server.Disciplined p.session (.handler op) := hd
    exact HttpConnection.step_settled h hop hss
  | copy hh => exact h
  | release hh => exact h
  | shutdown hh => exact h

/-- The connection that `server::handle_request` is given. -/
theorem presented_dispatched {s c : Session E.parser.State} {bytes : Bytes}
    (h : Free s s.reads s.posted) (hc : s.presented E id bytes = some c) :
    Staged 0 c.reads c.posted c ∧ c.exchange = .dispatched ∧ c.fault = s.fault := by
  unfold Session.presented at hc
  cases hres : (s.conn.httpParse E.parser bytes).result with
  | error f =>
    rw [hres] at hc
    cases hc
  | ok n =>
    rw [hres] at hc
    obtain ⟨-, hc⟩ := Option.ite_none_right_eq_some.mp hc
    obtain rfl := Option.some.inj hc
    obtain ⟨hst, hx⟩ := asked_staged (E := E) (HttpConnection.counting E) HttpConnection.gentle
      (t := ({ ((s.parse E bytes).note (.parsed bytes.length n)).logRequest E with
        lent := true } : Session E.parser.State).note (.dispatched _)) (h.parsed bytes n) rfl
    exact ⟨hst, hx, rfl⟩

/-- A connection of which a read has completed is free to answer. -/
theorem free_of_read {s : Session E.parser.State} (h : HttpConnection.Settled s)
    (hr : 0 < s.reads) : Free ({ s with reads := s.reads - 1 } : Session E.parser.State)
      (s.reads - 1) s.posted := by
  have hx := h.staged.idle_of_starts (Nat.pos_iff_ne_zero.mp hr)
  have hs := h.staged.stage
  rw [hx] at hs
  obtain ⟨hle, hw, hp, hf⟩ := hs
  exact ⟨h.staged.accepts, hx, by omega, hw, hp, hf⟩

end Activities

/-! ## All connections -/

section Systems

variable {E : Externals} {T : Scheme E} {es : List Event} {u : System E.parser.State}

/-- What a started connection has, and every activity within the contract keeps, all connections
of a system have. -/
theorem forall_sessions {tag : Bytes} {junk : Uninitialised} {regs : List (Bytes × UInt64)}
    {I : Session E.parser.State → Prop}
    (hstart : ∀ junk, I (T.started (.new tag junk E.parser.init)))
    (hact : ∀ server p a ran,
      Registered (react E T.transport.async) (regs.map Prod.fst) server → p.session.fault = none →
        a.Disciplined p.session → ran.Regular → I p.session → Acted T server p a ran →
          I ran.peer.session)
    (hd : Along (System.step T) Contract (System.start T tag junk regs) es)
    (h : runs (System.step T) (System.start T tag junk regs) es = some u)
    (hx : u.stopped ≠ some .exception) : ∀ x ∈ u.connections, I x.session := by
  have hstep : ∀ past s ev t, (Apart T tag (regs.map Prod.fst) past s ∧
      (s.stopped ≠ some .exception → ∀ x ∈ s.connections, I x.session)) → Contract s ev →
        System.step T s ev = some t → Apart T tag (regs.map Prod.fst) (past ++ [ev]) t ∧
          (t.stopped ≠ some .exception → ∀ x ∈ t.connections, I x.session) := by
    intro past s ev t hI hcon hs
    obtain ⟨hapart, hall⟩ := hI
    refine ⟨apart_step hapart hs, fun hex => ?_⟩
    obtain ⟨hrun, hstep⟩ := System.stepped_of_step T hs
    have hrunning : s.stopped ≠ some .exception := by
      intro hstop
      rw [hrun] at hstop
      cases hstop
    cases hstep with
    | accepted junk' ha =>
      obtain ⟨junk'', hnext⟩ := hapart.next
      refine List.forall_mem_append.mpr ⟨hall hrunning, List.forall_mem_singleton.mpr ?_⟩
      change I (T.started s.acceptor.newConnection)
      rw [hnext]
      exact hstart junk''
    | deaf e junk' he ha => exact hall hex
    | connection i a p ran hp ha =>
      intro x hmem
      rcases List.mem_or_eq_of_mem_set hmem with hold | rfl
      · exact hall hrunning x hold
      · rw [Slot.session_settle]
        exact hact s.server p a ran hapart.registered (hapart.unfaulted hrun i _ hp)
          (hcon p (System.peer_eq_some.mpr hp)) hex (hall hrunning _ (List.mem_of_getElem? hp)) ha
  have hlast := history (I := fun past s => Apart T tag (regs.map Prod.fst) past s ∧
    (s.stopped ≠ some .exception → ∀ x ∈ s.connections, I x.session)) hstep
      ⟨apart_start T tag junk regs, fun _ => List.forall_mem_nil _⟩ hd h
  exact hlast.2 hx

end Systems

/-! ## Urls without a pattern -/

/-- After a request without a pattern a 404 is owed. -/
def notFounds (patterns : List Bytes) : Monitor Obs Bool where
  next
    | _, .dispatched r => (routed patterns r.url).isNone
    | _, _ => false
  ok owed o := owed = true → ∃ reply, o = .replying reply ∧ reply.status = .notFound

/-- No 404 is owed for longer than it takes to send it. -/
structure Prompt (patterns : List Bytes) {State : Type} (s : Session State) : Prop where
  accepts : (notFounds patterns).Accepts false s.log
  paid : s.fault = none → (notFounds patterns).after false s.log = false

theorem notFounds_silent (patterns : List Bytes) {l : List Obs} (h : requests l = []) :
    (notFounds patterns).Accepts false l ∧ (notFounds patterns).after false l = false := by
  have hstill : ∀ o ∈ l, (notFounds patterns).next false o = false ∧
      (notFounds patterns).ok false o := by
    intro o ho
    refine ⟨?_, fun hf => absurd hf Bool.false_ne_true⟩
    have hq := List.filterMap_eq_nil_iff.mp h o ho
    cases o with
    | dispatched r => cases hq
    | callback _ | parsed _ _ | requestIdLogged _ | methodLogged _ | deferred | notified _
    | replying _ | replied _ _ | readStarted | timedOut _ => rfl
  exact ⟨Monitor.accepts_of_still hstill, Monitor.after_of_still fun o ho => (hstill o ho).1⟩

section Sessions

variable {State : Type} {patterns : List Bytes} {s t : Session State}

theorem Prompt.of_log {l : List Obs} (h : Prompt patterns s) (hf : s.fault = none)
    (hl : t.log = s.log ++ l) (hacc : (notFounds patterns).Accepts false l)
    (hafter : t.fault = none → (notFounds patterns).after false l = false) : Prompt patterns t := by
  have hpaid := h.paid hf
  refine ⟨?_, fun ht => ?_⟩
  · rw [hl, Monitor.accepts_append, hpaid]
    exact ⟨h.accepts, hacc⟩
  · rw [hl, Monitor.after_append, hpaid]
    exact hafter ht

theorem Prompt.of_silent (h : Prompt patterns s) (hf : s.fault = none) (hs : Silent s t) :
    Prompt patterns t := by
  obtain ⟨l, hl, hnone⟩ := hs
  obtain ⟨hacc, hafter⟩ := notFounds_silent patterns hnone
  exact h.of_log hf hl hacc fun _ => hafter

/-- The next thing after a request without a pattern is its 404. -/
theorem Prompt.next (h : Prompt patterns s) (hf : s.fault = none) {a b : List Obs} {r : Request}
    (hl : s.log = a ++ .dispatched r :: b) (hr : routed patterns r.url = none) :
    ∃ reply b', b = .replying reply :: b' ∧ reply.status = .notFound := by
  have howed : (notFounds patterns).next ((notFounds patterns).after false a) (.dispatched r) =
      true := by
    change (routed patterns r.url).isNone = true
    rw [hr]
    rfl
  have hacc := h.accepts
  have hafter := h.paid hf
  rw [hl, Monitor.accepts_append, Monitor.accepts_cons, howed] at hacc
  rw [hl, Monitor.after_append, Monitor.after_cons, howed] at hafter
  cases b with
  | nil => cases hafter
  | cons o b =>
    obtain ⟨reply, rfl, hstatus⟩ := hacc.2.2.1 rfl
    exact ⟨reply, b, rfl, hstatus⟩

end Sessions

section Reads

variable {E : Externals} {c : Session E.parser.State}

/-- What `server::handle_request` and `handle_read` make of a request without a pattern: the 404 is
the next thing that is sent. -/
theorem answered_notFound (hst : Staged 0 c.reads c.posted c) (hx : c.exchange = .dispatched)
    (hf : c.fault = none) :
    ((answered (http E) c ⟨notFoundOps, 0, false⟩).fault ≠ none ∧
      (answered (http E) c ⟨notFoundOps, 0, false⟩).log = c.log) ∨
    ∃ reply l, (answered (http E) c ⟨notFoundOps, 0, false⟩).log = c.log ++ .replying reply :: l ∧
      reply.status = .notFound := by
  have hops : c.handlerOps E (http E).transport.async notFoundOps =
      c.takeReply (c.conn.reply.create .notFound Reply.textHtml 0) := by
    unfold notFoundOps
    simp only [Session.handlerOps, Session.handlerOp, Session.andThen]
    exact ite_self _
  have hwait : c.conn.waitingForAsyncReply = false := by
    have hstage := hst.stage
    rw [hx] at hstage
    exact hstage.2.2.2
  unfold answered
  rw [if_neg Bool.false_ne_true, hops]
  by_cases hb : c.conn.reply.HasBuffer
  · obtain ⟨content, hcontent⟩ := Option.isSome_iff_exists.mp hb
    rw [Reply.create_eq hcontent]
    right
    change ∃ reply l, (Session.resume E (c.setReply _)).log = _ ∧ _
    unfold Session.resume Session.andThen
    rw [if_neg (by change ¬ c.fault.isSome = true; rw [hf]; exact Bool.false_ne_true)]
    dsimp only
    rw [if_neg (by change ¬ c.conn.waitingForAsyncReply = true; rw [hwait]; exact Bool.false_ne_true)]
    obtain ⟨l, hl⟩ := sendReply_log E (c.setReply
      { c.conn.reply with
        status := .notFound
        headers := Reply.resize c.conn.reply.headers 0 ++ Reply.ownHeaders content Reply.textHtml })
    exact ⟨_, l, hl, rfl⟩
  · -- a request that has left no buffer for its reply
    left
    rw [Reply.create_null hb]
    unfold Session.resume
    rw [andThen_of_fault (Option.some_ne_none _)]
    exact ⟨Option.some_ne_none _, rfl⟩

/-- Whatever the handlers do, a 404 that is owed is sent next. -/
theorem answered_paid (patterns : List Bytes) (hst : Staged 0 c.reads c.posted c) (hx : c.exchange = .dispatched)
    (hf : c.fault = none) (r : Reaction) (k : Option Nat) {l : List Obs}
    (hl : (answered (http E) c (r.at k)).log = c.log ++ l) (hquiet : ∀ o ∈ l, o.Quiet) :
    (notFounds patterns).Accepts k.isNone l ∧
      ((answered (http E) c (r.at k)).fault = none → (notFounds patterns).after k.isNone l = false) := by
  cases k with
  | some k =>
    obtain ⟨hacc, hafter⟩ := notFounds_silent patterns (requests_quiet hquiet)
    exact ⟨hacc, fun _ => hafter⟩
  | none =>
    rcases answered_notFound hst hx hf with ⟨hfault, hlog⟩ | ⟨reply, l', hlog, hstatus⟩
    · have hnil : l = [] := List.append_right_eq_self.mp (hl.symm.trans hlog)
      subst hnil
      exact ⟨trivial, fun hnone => absurd hnone hfault⟩
    · have hcons : l = .replying reply :: l' := List.append_cancel_left (hl.symm.trans hlog)
      subst hcons
      have hrest := requests_quiet (List.forall_mem_cons.mp hquiet).2
      obtain ⟨hacc, hafter⟩ := notFounds_silent patterns hrest
      exact ⟨⟨fun _ => ⟨reply, rfl, hstatus⟩, hacc⟩, fun _ => hafter⟩

end Reads

section Systems

variable {E : Externals} {patterns : List Bytes} {server : Server (Visit E.parser.State)}
variable {p : Peer E.parser.State} {a : Activity} {ran : Ran E.parser.State}

/-- A request that has been passed on goes to its pattern, or is answered with a 404. -/
theorem Acted.prompt (hs : Registered (react E (HttpConnection.async E)) patterns server)
    (ha : Acted (http E) server p a ran) (hf : p.session.fault = none)
    (hset : HttpConnection.Settled p.session) (h : Prompt patterns p.session) :
    Prompt patterns ran.peer.session := by
  cases ha.passes with
  | silent _ hsilent => exact h.of_silent hf hsilent
  | passed e bytes r c s' hev hpres hr hs' hlog hran =>
    subst hran
    cases e with
    | operationAborted => cases hpres
    | failure => cases hpres
    | success =>
      have hfree : Free ({ p.session with reads := p.session.reads - 1 } :
          Session E.parser.State).cancelTimer (p.session.reads - 1) p.session.posted :=
        (free_of_read hset hr).of_still (List.append_nil _).symm (List.forall_mem_nil _) rfl rfl
      obtain ⟨hst, hx, hfault⟩ := presented_dispatched hfree hpres
      have hcf : c.fault = none := hfault.trans hf
      obtain ⟨l, hl, hnone⟩ := hs'
      obtain ⟨hacc, hafter⟩ := notFounds_silent patterns hnone
      obtain ⟨k, hk⟩ : ∃ k, routed patterns c.conn.request.url = k := ⟨_, rfl⟩
      obtain ⟨l', hl', hquiet⟩ := (quiet_answered (T := http E) c (r.at k)).log
      obtain ⟨hacc', hafter'⟩ := answered_paid patterns hst hx hcf r k hl' hquiet
      rw [handleRead_of_presented (http E) hs hpres r hk]
      have howed : (notFounds patterns).next false (.dispatched c.conn.request) = k.isNone :=
        congrArg Option.isNone hk
      refine h.of_log hf (l := l ++ .dispatched c.conn.request :: l') ?_ ?_ ?_
      · change (answered (http E) c (r.at k)).log = _
        rw [hl', hlog, hl, List.append_assoc, List.append_assoc]
        rfl
      · rw [Monitor.accepts_append, hafter, Monitor.accepts_cons, howed]
        exact ⟨hacc, fun hfalse => absurd hfalse Bool.false_ne_true, hacc'⟩
      · intro hgone
        rw [Monitor.after_append, hafter, Monitor.after_cons, howed]
        exact hafter' hgone

/-- A request whose url no pattern accepts is answered with a 404, and with nothing in between: no
handler, and no event of this or of any other connection. -/
theorem unrouted_notFound (E : Externals) (tag : Bytes) (junk : Uninitialised)
    (regs : List (Bytes × UInt64)) {es : List Event} {u : System E.parser.State}
    (hd : Along (System.step (http E)) Contract (System.start (http E) tag junk regs) es)
    (h : runs (System.step (http E)) (System.start (http E) tag junk regs) es = some u)
    (hrun : u.stopped = none) {x : Slot E.parser.State} (hx : x ∈ u.connections) {a b : List Obs}
    {r : Request} (hl : x.session.log = a ++ .dispatched r :: b)
    (hr : routed (regs.map Prod.fst) r.url = none) :
    ∃ reply b', b = .replying reply :: b' ∧ reply.status = .notFound := by
  have hrunning : u.stopped ≠ some .exception := by
    intro hstop
    rw [hrun] at hstop
    cases hstop
  obtain ⟨hacc, hafter⟩ := notFounds_silent (regs.map Prod.fst) (l := [.readStarted]) rfl
  have hall := forall_sessions (T := http E)
    (I := fun s => HttpConnection.Settled s ∧ Prompt (regs.map Prod.fst) s)
    (fun junk => ⟨HttpConnection.start_settled tag junk, hacc, fun _ => hafter⟩)
    (fun server p act ran hs hf hdisc hreg hI ha =>
      ⟨ha.settled hs hreg hdisc hI.1, ha.prompt hs hf hI.1 hI.2⟩) hd h hrunning
  obtain ⟨i, hi⟩ := List.getElem?_of_mem hx
  exact (hall x hx).2.next ((apart_runs (http E) tag junk regs h).unfaulted hrun i x hi) hl hr

end Systems

theorem unrouted_notFound_twoGets : ∃ u x a b r,
    runs (System.step (http getServer)) (System.start (http getServer) [] .zero [(ascii "/a", 0)])
      twoGets = some u ∧ x ∈ u.connections ∧ x.session.log = a ++ .dispatched r :: b ∧
        ∃ reply b', b = .replying reply :: b' ∧ reply.status = .notFound := by
  have hrun : ∃ u x r, runs (System.step (http getServer))
      (System.start (http getServer) [] .zero [(ascii "/a", 0)]) twoGets = some u ∧
        u.stopped = none ∧ x ∈ u.connections ∧ x.session.log[8]? = some (.dispatched r) ∧
          routed [ascii "/a"] r.url = none :=
    ⟨_, _, _, rfl, rfl, .head _, rfl, rfl⟩
  obtain ⟨u, x, r, hu, hrunning, hx, hr, hnone⟩ := hrun
  obtain ⟨a, b, hl⟩ := List.append_of_mem (List.mem_of_getElem? hr)
  exact ⟨u, x, a, b, r, hu, hx, hl, unrouted_notFound getServer [] .zero [(ascii "/a", 0)]
    (by decide +kernel) hu hrunning hx hl hnone⟩

end CsiHttp.Service

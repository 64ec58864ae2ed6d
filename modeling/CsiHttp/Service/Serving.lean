import CsiHttp.Service.Answers
import CsiHttp.Service.Interleavings

/-!
# Every request is answered

The whole desk, on `http_connection`. What its connections see of its handlers and timers keeps to
the contract, so that a connection and the answers that are still to be given on it stay together:
`Tended` for one connection, `Serving` for all of them.
-/
namespace CsiHttp.Service

open Lib Lib.Text Lib.Runs Server

/-! ## A desk is a server -/

section Systems

variable {E : Externals} {T : Scheme E} {patterns : List Bytes} {plan : Request → Plan}

theorem follow_runs (s : System E.parser.State) (i : Nat) (as : List Activity) :
    ∃ es, runs (System.step T) s es = some (Desk.follow T s i as) := by
  induction as generalizing s with
  | nil => exact ⟨[], rfl⟩
  | cons a as ih =>
    cases hs : System.step T s (.connection i a) with
    | none =>
      refine ⟨[], ?_⟩
      rw [Desk.follow, hs]
      rfl
    | some t =>
      obtain ⟨es, hes⟩ := ih t
      refine ⟨.connection i a :: es, ?_⟩
      rw [Desk.follow, hs]
      exact runs_cons_iff.mpr ⟨t, hs, hes⟩

/-- What a desk does is a run of its server. -/
theorem Desk.step_runs {d d' : Desk E.parser.State} {ev : Desk.Event}
    (h : Desk.step T patterns plan d ev = some d') :
    ∃ es, runs (System.step T) d.system es = some d'.system := by
  cases ev with
  | accept n e junk =>
    obtain ⟨t, ht, rfl⟩ := Option.map_eq_some_iff.mp h
    exact ⟨[_], runs_cons_iff.mpr ⟨t, ht, rfl⟩⟩
  | read i e bytes =>
    obtain ⟨p, -, h⟩ := Option.bind_eq_some_iff.mp h
    obtain ⟨t, ht, rfl⟩ := Option.map_eq_some_iff.mp h
    exact ⟨[_], runs_cons_iff.mpr ⟨t, ht, rfl⟩⟩
  | complete i ev =>
    obtain ⟨t, ht, rfl⟩ := Option.map_eq_some_iff.mp h
    exact ⟨[_], runs_cons_iff.mpr ⟨t, ht, rfl⟩⟩
  | shutdown i =>
    obtain ⟨t, ht, rfl⟩ := Option.map_eq_some_iff.mp h
    exact ⟨[_], runs_cons_iff.mpr ⟨t, ht, rfl⟩⟩
  | job k =>
    obtain ⟨-, h⟩ := Option.ite_none_left_eq_some.mp h
    obtain ⟨j, -, rfl⟩ := Option.map_eq_some_iff.mp h
    exact follow_runs _ _ _

/-- What a read with planned handlers is for its connection and for the timers. -/
theorem Desk.acted_of_read {d d' : Desk E.parser.State} {i : Nat} {e : ErrorCode} {bytes : Bytes}
    (h : Desk.step T patterns plan d (.read i e bytes) = some d') :
    d.system.stopped = none ∧ ∃ p ran, d.system.connections[i]? = some (.alive p) ∧
      Acted T d.system.server p (.read e bytes
        ((Desk.planned T patterns plan e bytes p.session).elim ⟨[], 0, false⟩ Plan.reaction)) ran ∧
      d' = ⟨d.system.finish i ran, d.jobs ++
        ((Desk.planned T patterns plan e bytes p.session).elim [] Plan.jobs).map (fun a => (i, a))⟩ := by
  obtain ⟨p, hp, h⟩ := Option.bind_eq_some_iff.mp h
  obtain ⟨t, ht, rfl⟩ := Option.map_eq_some_iff.mp h
  obtain ⟨hrun, hstep⟩ := System.stepped_of_step T ht
  cases hstep with
  | connection _ _ q ran hq ha =>
    obtain rfl := Slot.alive.inj (Option.some.inj ((System.peer_eq_some.mp hp).symm.trans hq))
    exact ⟨hrun, p, ran, hq, ha, rfl⟩

theorem Apart.runs {tag : Bytes} {past es : List Event} {s u : System E.parser.State}
    (h : Apart T tag patterns past s) (hr : runs (System.step T) s es = some u) :
    Apart T tag patterns (past ++ es) u :=
  history (I := fun past s => Apart T tag patterns past s) (D := fun _ _ => True)
    (fun _ _ _ _ h _ hs => apart_step h hs) h (along_of_forall (fun _ _ => trivial) _ _) hr

/-- The system in which connection `i` is `p`. -/
def System.place {State : Type} (s : System State) (i : Nat) (p : Peer State) : System State :=
  { s with connections := s.connections.set i (.alive p) }

/-- While somebody holds a connection an activity of it changes nothing but the connection. -/
theorem finish_eq_place {s : System E.parser.State} {p : Peer E.parser.State}
    (hrun : s.stopped = none) (hh : 0 < p.handles) (hf : p.session.fault = none) (i : Nat) :
    s.finish i ⟨s.server, p, false⟩ = s.place i p := by
  have hstop : Ran.stop ⟨s.server, p, false⟩ = none := by
    unfold Ran.stop
    rw [hf]
    rfl
  have howners : p.owners ≠ 0 := by
    unfold Peer.owners
    omega
  unfold System.finish System.place Slot.settle
  rw [hstop, hrun, if_neg howners, if_neg howners]

theorem handler_step {s : System E.parser.State} {i : Nat} {p : Peer E.parser.State}
    (hrun : s.stopped = none) (hp : s.connections[i]? = some (.alive p)) (hh : 0 < p.handles)
    (hf : p.session.fault = none) (hl : p.session.lent = true) (op : HandlerOp) :
    System.step T s (.connection i (.handler op)) =
      some (s.finish i ⟨s.server, { p with session := p.session.handlerOp E T.transport.async op },
        false⟩) := by
  have hstep : p.session.step E T.transport (.handler op) =
      some (p.session.handlerOp E T.transport.async op) := by
    unfold Session.step
    rw [if_neg (by rw [hf]; exact Bool.false_ne_true)]
    exact if_pos hl
  have hact : (Activity.handler op).run T s.server p =
      some ⟨s.server, { p with session := p.session.handlerOp E T.transport.async op }, false⟩ := by
    change (if 0 < p.handles then _ else none) = _
    rw [if_pos hh, hstep]
    rfl
  exact step_connection_iff.mpr ⟨hrun, p, _, hp, hact, rfl⟩

theorem follow_stopped {s : System E.parser.State} (hs : s.stopped ≠ none) (i : Nat)
    (as : List Activity) : Desk.follow T s i as = s := by
  cases as with
  | nil => rfl
  | cons a as =>
    have hnone : System.step T s (.connection i a) = none :=
      if_pos (Option.isSome_iff_ne_none.mpr hs)
    rw [Desk.follow, hnone]

/-- A handler that has kept a connection does all its actions, unless one of them is the end. -/
theorem follow_handlers {s : System E.parser.State} {i : Nat} {p : Peer E.parser.State}
    (hlends : ∀ (t : Session E.parser.State) op, (t.handlerOp E T.transport.async op).lent = t.lent)
    (hrun : s.stopped = none) (hp : s.connections[i]? = some (.alive p)) (hh : 0 < p.handles)
    (hf : p.session.fault = none) (hl : p.session.lent = true) (ops : List HandlerOp)
    (as : List Activity) :
    Desk.follow T s i (ops.map .handler ++ as) =
      if (p.session.handlerOps E T.transport.async ops).fault = none then
        Desk.follow T
          (s.place i { p with session := p.session.handlerOps E T.transport.async ops }) i as
      else s.finish i
        ⟨s.server, { p with session := p.session.handlerOps E T.transport.async ops }, false⟩ := by
  obtain ⟨hi, hget⟩ := List.getElem?_eq_some_iff.mp hp
  induction ops generalizing s p with
  | nil =>
    have hsame : s.place i p = s := by
      unfold System.place
      rw [← hget, List.set_getElem_self]
    have hnil : p.session.handlerOps E T.transport.async [] = p.session := rfl
    rw [hnil, if_pos hf]
    exact congrArg (fun s => Desk.follow T s i as) hsame.symm
  | cons op ops ih =>
    rw [handlerOps_cons, List.map_cons, List.cons_append, Desk.follow,
      handler_step hrun hp hh hf hl op]
    dsimp only
    cases hop : (p.session.handlerOp E T.transport.async op).fault with
    | some f =>
      have hfault : (p.session.handlerOp E T.transport.async op).fault ≠ none := by
        rw [hop]
        exact Option.some_ne_none f
      rw [andThen_of_fault hfault, if_neg hfault]
      -- the program has ended
      apply follow_stopped
      change Ran.stop _ ≠ none
      exact fun hstop => hfault (fault_of_running hstop)
    | none =>
      have hplace := finish_eq_place (s := s)
        (p := { p with session := p.session.handlerOp E T.transport.async op }) hrun hh hop i
      have hi' : i < (s.place i { p with
          session := p.session.handlerOp E T.transport.async op }).connections.length := by
        change i < (s.connections.set i _).length
        rwa [List.length_set]
      have hget' : (s.place i { p with
          session := p.session.handlerOp E T.transport.async op }).connections[i] =
            .alive { p with session := p.session.handlerOp E T.transport.async op } :=
        List.getElem_set_self _
      have hrest := ih (s := s.place i { p with
          session := p.session.handlerOp E T.transport.async op })
        (p := { p with session := p.session.handlerOp E T.transport.async op }) hrun
        (List.getElem?_eq_some_iff.mpr ⟨hi', hget'⟩) hh hop ((hlends _ _).trans hl) hi' hget'
      rw [andThen_of_none hop, hplace, hrest]
      have htwice : ∀ x y : Slot E.parser.State, (s.connections.set i x).set i y =
          s.connections.set i y := fun x y => List.set_set x
      unfold System.place System.finish
      dsimp only
      rw [htwice, htwice]

end Systems

/-! ## One connection -/

/-- A connection of a desk with the answers that are still to be given on it: each of them is
in a handler that holds the connection. -/
structure Tended (expected : Request → Option Answer) (js : List Answer) {State : Type}
    (s : Session State) (handles : Nat) : Prop where
  served : Served expected js s
  settled : HttpConnection.Settled s
  handles : handles = js.length

/-- What an activity leaves of its connection, and why the program ends with it. -/
structure Left (expected : Request → Option Answer) (js : List Answer) {State : Type}
    (ran : Ran State) : Prop where
  accepts : (answering expected).Accepts none ran.peer.session.log
  thrown : ran.stop = some .exception ↔ ∃ r ∈ requests ran.peer.session.log, expected r = none
  tended : ran.stop = none → Tended expected js ran.peer.session ran.peer.handles

section Connections

variable {E : Externals} {patterns : List Bytes} {plan : Request → Plan} {js : List Answer}
variable {server : Server (Visit E.parser.State)} {p : Peer E.parser.State} {ran : Ran E.parser.State}

theorem stop_of_returned {State : Type} {ran : Ran State} (h : ran.threw = false) :
    ran.stop ≠ some .exception :=
  Ran.regular_iff.mpr (Or.inr h)

theorem left_of_kept {expected : Request → Option Answer} (hthrew : ran.threw = false)
    (hkept : Kept expected js ran.peer.session) (hset : HttpConnection.Settled ran.peer.session)
    (hh : ran.peer.handles = js.length)
    (hall : ∀ r ∈ requests ran.peer.session.log, expected r ≠ none) : Left expected js ran where
  accepts := hkept.1
  thrown := by
    refine iff_of_false (stop_of_returned hthrew) fun hr => ?_
    obtain ⟨r, hmem, hnone⟩ := hr
    exact hall r hmem hnone
  tended hstop := ⟨hkept.2 (fault_of_running hstop), hset, hh⟩

/-- An answer is given in actions that leave a handler where it is in its contract. -/
theorem follow_answer {d : Deferral} (hd : d = .asked ∨ d = .waiting) (a : Answer)
    (ops : List HandlerOp) : d.follow (a.ops ++ ops) = d.follow ops := by
  have hplain : ∀ op, op ≠ .waitForAsyncReply → op ≠ .notifyAsyncReplyDone →
      d.next op = some d := by
    intro op hwait hnotify
    rcases hd with rfl | rfl <;> cases op <;> first | rfl | exact absurd rfl hwait | exact absurd rfl hnotify
  have hall : ∀ plain : List HandlerOp,
      (∀ op ∈ plain, op ≠ .waitForAsyncReply ∧ op ≠ .notifyAsyncReplyDone) →
        d.follow (plain ++ ops) = d.follow ops := by
    intro plain hops
    induction plain with
    | nil => rfl
    | cons op plain ih =>
      obtain ⟨hop, hrest⟩ := List.forall_mem_cons.mp hops
      rw [List.cons_append, Deferral.follow, hplain op hop.1 hop.2]
      exact ih hrest
  apply hall
  unfold Answer.ops
  rw [List.forall_mem_append, List.forall_mem_map, List.forall_mem_singleton]
  exact ⟨fun _ _ => ⟨HandlerOp.noConfusion, HandlerOp.noConfusion⟩, HandlerOp.noConfusion,
    HandlerOp.noConfusion⟩

theorem plan_disciplined (x : Option Plan) {State : Type} (s : Session State) (e : ErrorCode)
    (bytes : Bytes) : (Activity.read e bytes (x.elim ⟨[], 0, false⟩ Plan.reaction)).Disciplined s := by
  have hfollow : (Deferral.asked.follow (x.elim ⟨[], 0, false⟩ Plan.reaction).ops).isSome := by
    cases x with
    | none => rfl
    | some plan =>
      cases plan with
      | now a =>
        have hops := follow_answer (Or.inl rfl : Deferral.asked = .asked ∨ _) a []
        rw [List.append_nil] at hops
        exact congrArg Option.isSome hops
      | later a => rfl
      | throws => rfl
  cases e with
  | success => exact hfollow
  | operationAborted | failure => trivial

theorem requests_answered_log (c : Session E.parser.State) (r : Reaction) :
    requests (answered (http E) c r).log = requests c.log :=
  (silent_of_quiet (quiet_answered (T := http E) c r)).requests

/-- A read that reaches no handler. -/
theorem handleRead_kept {expected : Request → Option Answer} {s : Session E.parser.State}
    (h : Served expected js s) (hfree : Free s.cancelTimer s.cancelTimer.reads s.cancelTimer.posted)
    (hf : s.fault = none) {e : ErrorCode} {bytes : Bytes}
    (hnone : (http E).presented e bytes s = none) :
    Kept expected js (HttpConnection.handleRead E e bytes [] s) := by
  have hcancel : Served expected js s.cancelTimer := h.of_same rfl rfl rfl
  cases e with
  | success => exact readSucceeded_kept hcancel hfree hf hnone (HttpConnection.async E)
  | operationAborted => exact h.kept
  | failure => exact hcancel.kept

/-- The plan by which a request is answered: that of its handler, or the 404. -/
def chosen (patterns : List Bytes) (plan : Request → Plan) (r : Request) : Plan :=
  match routed patterns r.url with
  | some _ => plan r
  | none => .now .notFound

theorem chosen_eq {r : Request} {k : Option Nat} {x : Option Plan} (hk : routed patterns r.url = k)
    (hx : x = k.map (fun _ => plan r)) : (chosen patterns plan r).answer = expected patterns plan r ∧
      (chosen patterns plan r).reaction = (x.elim ⟨[], 0, false⟩ Plan.reaction).at k ∧
        (chosen patterns plan r).jobs = x.elim [] Plan.jobs := by
  subst hx
  unfold chosen expected
  rw [hk]
  cases k with
  | some k => exact ⟨rfl, rfl, rfl⟩
  | none => exact ⟨rfl, rfl, rfl⟩

/-- A read that brings a request to its handler, or to none. -/
theorem handled_left {expected : Request → Option Answer} {c : Session E.parser.State}
    (h : Asked expected c) {before : List Request} (hreq : requests c.log = before ++ [c.conn.request])
    (hall : ∀ r ∈ before, expected r ≠ none) {x : Plan} (hx : x.answer = expected c.conn.request)
    (hsession : ran.peer.session = answered (http E) c x.reaction)
    (hh : ran.peer.handles = x.reaction.keeps) (hthrew : ran.threw = x.reaction.throws)
    (hset : ran.Regular → HttpConnection.Settled ran.peer.session) : Left expected x.jobs ran := by
  have hlog : requests ran.peer.session.log = before ++ [c.conn.request] := by
    rw [hsession, requests_answered_log, hreq]
  have hrest : ∀ a, expected c.conn.request = some a →
      ∀ r ∈ requests ran.peer.session.log, expected r ≠ none := by
    intro a ha
    rw [hlog, List.forall_mem_append, List.forall_mem_singleton, ha]
    exact ⟨hall, Option.some_ne_none a⟩
  cases x with
  | now a =>
    refine left_of_kept hthrew ?_ (hset (stop_of_returned hthrew)) hh (hrest a hx.symm)
    rw [hsession]
    exact answered_now h hx.symm
  | later a =>
    refine left_of_kept hthrew ?_ (hset (stop_of_returned hthrew)) hh (hrest a hx.symm)
    rw [hsession]
    exact answered_later h hx.symm
  | throws =>
    have hsame : ran.peer.session = c := hsession
    have hstop : ran.stop = some .exception := by
      unfold Ran.stop
      rw [hsame, h.fault, hthrew]
      rfl
    have hmem : c.conn.request ∈ requests ran.peer.session.log := by
      rw [hlog]
      exact List.mem_append_right _ (List.mem_singleton_self _)
    refine ⟨?_, iff_of_true hstop ⟨_, hmem, hx.symm⟩, fun hgo => ?_⟩
    · rw [hsame]
      exact h.accepts
    · rw [hstop] at hgo
      cases hgo

/-- A read that brings a request. -/
theorem presented_left (hs : Registered (react E (HttpConnection.async E)) patterns server)
    (h : Served (expected patterns plan) [] p.session) (hh : p.handles = 0)
    (hfree : Free p.session.cancelTimer p.session.cancelTimer.reads p.session.cancelTimer.posted)
    (hf : p.session.fault = none)
    (hall : ∀ r ∈ requests p.session.log, expected patterns plan r ≠ none) {bytes : Bytes}
    {c : Session E.parser.State} (hpres : (http E).presented .success bytes p.session = some c)
    {x : Option Plan}
    (hx : x = (routed patterns c.conn.request.url).map (fun _ => plan c.conn.request))
    (hran : ran = handleRead (http E) server .success bytes (x.elim ⟨[], 0, false⟩ Plan.reaction) p)
    (hset : ran.Regular → HttpConnection.Settled ran.peer.session) :
    Left (expected patterns plan) (x.elim [] Plan.jobs) ran := by
  obtain ⟨s', hs', hlog⟩ := presented_log (http E).prepares hpres
  have hreq : requests c.log = requests p.session.log ++ [c.conn.request] := by
    rw [hlog, requests_append, hs'.requests]
    rfl
  have hcancel : Served (expected patterns plan) [] p.session.cancelTimer := h.of_same rfl rfl rfl
  obtain ⟨hanswer, hreaction, hjobs⟩ := chosen_eq rfl hx
  have hwas := handleRead_of_presented (http E) hs hpres (x.elim ⟨[], 0, false⟩ Plan.reaction) rfl
  rw [← hreaction] at hwas
  rw [← hjobs]
  refine handled_left (asked_of_presented hcancel hfree hf hpres) hreq hall hanswer ?_ ?_ ?_ hset
  · rw [hran, hwas]
  · rw [hran, hwas, hh, Nat.zero_add]
  · rw [hran, hwas]

/-- A read with the handlers of a desk. -/
theorem read_left (hs : Registered (react E (HttpConnection.async E)) patterns server)
    (h : Tended (expected patterns plan) js p.session p.handles) (hf : p.session.fault = none)
    (hall : ∀ r ∈ requests p.session.log, expected patterns plan r ≠ none) {e : ErrorCode}
    {bytes : Bytes} {x : Option Plan} (hx : x = Desk.planned (http E) patterns plan e bytes p.session)
    (ha : Acted (http E) server p (.read e bytes (x.elim ⟨[], 0, false⟩ Plan.reaction)) ran) :
    js = [] ∧ Left (expected patterns plan) (x.elim [] Plan.jobs) ran := by
  have hset : ran.Regular → HttpConnection.Settled ran.peer.session := fun hreg =>
    ha.settled hs hreg (plan_disciplined x _ _ _) h.settled
  have hpasses := ha.passes
  cases ha with
  | read _ _ _ hr hb =>
  have hidle := h.settled.staged.idle_of_starts (Nat.pos_iff_ne_zero.mp hr)
  have howes := h.served.owes
  rw [hidle] at howes
  obtain ⟨-, rfl⟩ := howes
  refine ⟨rfl, ?_⟩
  have hfree : Free ({ p.session with reads := p.session.reads - 1 } :
      Session E.parser.State).cancelTimer (p.session.reads - 1) p.session.posted :=
    (free_of_read h.settled hr).of_still (List.append_nil _).symm (List.forall_mem_nil _) rfl rfl
  have hserved : Served (expected patterns plan) [] ({ p.session with reads := p.session.reads - 1 } :
      Session E.parser.State) := h.served.of_same rfl rfl rfl
  cases hpres : (http E).presented e bytes { p.session with reads := p.session.reads - 1 } with
  | none =>
    have hnone : x = none := by
      rw [hx, Desk.planned, hpres]
      rfl
    subst hnone
    cases hpasses with
    | passed e' bytes' r c s' hev hc =>
      injection hev with he hbytes hreaction
      rw [← he, ← hbytes, hpres] at hc
      cases hc
    | silent _ hsilent =>
      rw [handleRead_of_not_presented (http E) hpres] at hset hsilent ⊢
      refine left_of_kept rfl (handleRead_kept hserved hfree hf hpres) (hset (stop_of_returned rfl))
        h.handles ?_
      rw [hsilent.requests]
      exact hall
  | some c =>
    cases e with
    | operationAborted | failure => cases hpres
    | success =>
      have hplanned : x = (routed patterns c.conn.request.url).map (fun _ => plan c.conn.request) := by
        rw [hx, Desk.planned, hpres]
        rfl
      exact presented_left (p := { p with session := { p.session with reads := p.session.reads - 1 } })
        hs hserved h.handles hfree hf hall hpres hplanned rfl hset

/-- An activity that is neither a read nor that of a handler. -/
theorem completion_left {expected : Request → Option Answer} {a : Activity}
    (h : Tended expected js p.session p.handles)
    (hall : ∀ r ∈ requests p.session.log, expected r ≠ none)
    (ha : Acted (http E) server p a ran) (hkind : (∃ ev, a = .complete ev) ∨ a = .shutdown) :
    Left expected js ran := by
  obtain ⟨ev, rfl⟩ | rfl := hkind
  · cases ha with
    | complete _ s hev hs =>
    have hkept := completion_kept h.served h.settled hev hs
    have hset := HttpConnection.step_settled h.settled (disciplined_of_completion _ hev) hs
    have hsilent : Silent p.session s := by
      refine silent_step hs fun bytes ops he => ?_
      subst he
      cases hev
    refine left_of_kept rfl hkept hset h.handles ?_
    rw [hsilent.requests]
    exact hall
  · cases ha with
    | shutdown hh => exact left_of_kept rfl h.served.kept h.settled h.handles hall

theorem handlerOp_lent (s : Session E.parser.State) (op : HandlerOp) :
    (s.handlerOp E (HttpConnection.async E) op).lent = s.lent := by
  have hkept : Session.Kept E (fun s t : Session E.parser.State => t.lent = s.lent) :=
    ⟨fun _ => rfl, fun h h' => h'.trans h, fun _ _ => rfl, fun _ _ => rfl, fun _ _ => rfl,
      fun _ => rfl, fun _ => rfl⟩
  exact hkept.handlerOp (fun _ => rfl) (fun _ => rfl) s fun _ _ => rfl

/-- A connection for which a timer holds an answer waits for just this one. -/
theorem Tended.waiting {expected : Request → Option Answer} {a : Answer} {s : Session E.parser.State}
    {handles : Nat} (h : Tended expected js s handles) (ha : a ∈ js) :
    js = [a] ∧ s.lent = true ∧ s.exchange = .waiting := by
  have hne : js ≠ [] := List.ne_nil_of_mem ha
  have howes := h.served.owes
  cases hx : s.exchange with
  | waiting =>
    rw [hx] at howes
    obtain ⟨hlent, b, -, rfl⟩ := howes
    obtain rfl := List.mem_singleton.mp ha
    exact ⟨rfl, hlent, rfl⟩
  | idle | replied =>
    rw [hx] at howes
    exact absurd howes.2 hne
  | notified r =>
    rw [hx] at howes
    obtain ⟨-, -, -, hjs⟩ := howes
    exact absurd hjs hne
  | dispatched | sending _ =>
    rw [hx] at howes
    exact absurd howes id

/-- A handler that has put its answer off hands it in. -/
theorem handlerOps_notified {a : Answer} {s t : Session E.parser.State}
    (h : HttpConnection.Settled s) (hx : s.exchange = .waiting) (ht : t =
      s.handlerOps E (HttpConnection.async E) (a.ops ++ [.notifyAsyncReplyDone])) :
    Staged 0 t.reads t.posted t ∧ (t.fault = none → ∃ r, t.exchange = .notified r) := by
  have hfollow : Deferral.waiting.follow (a.ops ++ [.notifyAsyncReplyDone]) = some .done :=
    follow_answer (Or.inr rfl) a _
  have hat : Deferral.waiting.At s.exchange := hx
  rw [ht]
  exact handlerOps_staged (HttpConnection.counting E) h.staged hat hfollow

/-- The timer of a handler. -/
theorem posted_left (server : Server (Visit E.parser.State)) {expected : Request → Option Answer}
    {a : Answer}
    (h : Tended expected [a] p.session p.handles) (hwaiting : p.session.exchange = .waiting)
    (hf : p.session.fault = none) (hall : ∀ r ∈ requests p.session.log, expected r ≠ none)
    {q : Peer E.parser.State} (hq : q.session =
      p.session.handlerOps E (HttpConnection.async E) (a.ops ++ [.notifyAsyncReplyDone]))
    (hh : q.session.fault = none → q.handles = 0) : Left expected [] ⟨server, q, false⟩ := by
  have hkept := handlerOps_posted h.served h.settled hwaiting hf rfl
  obtain ⟨hstaged, hdone⟩ := handlerOps_notified h.settled hwaiting hq
  have hset : HttpConnection.Settled q.session := by
    refine ⟨hstaged, fun hnone hdispatched => ?_⟩
    obtain ⟨r, hr⟩ := hdone hnone
    rw [hr] at hdispatched
    cases hdispatched
  have hreq : requests q.session.log = requests p.session.log := by
    rw [hq]
    exact (silent_of_quiet (Session.quiet_handlerOps (HttpConnection.lawful E).async _ _)).requests
  rw [← hq] at hkept
  refine ⟨hkept.1, iff_of_false (stop_of_returned rfl) fun hr => ?_, fun hstop => ?_⟩
  · obtain ⟨r, hmem, hnone⟩ := hr
    rw [hreq] at hmem
    exact hall r hmem hnone
  · have hfault := fault_of_running hstop
    exact ⟨hkept.2 hfault, hset, hh hfault⟩

end Connections

/-! ## The answers that are still to be given -/

section Jobs

variable {E : Externals} {d : Desk E.parser.State} {system : System E.parser.State}
variable {jobs : List (Nat × Answer)}

theorem jobsOf_eq_nil {i : Nat} (h : ∀ j ∈ d.jobs, j.1 ≠ i) : d.jobsOf i = [] := by
  unfold Desk.jobsOf
  rw [List.filter_eq_nil_iff.mpr fun j hj => by simpa using h j hj]
  rfl

/-- New answers concern the connection that has asked for them. -/
theorem jobsOf_append (i j : Nat) (as : List Answer) :
    Desk.jobsOf ⟨system, jobs ++ as.map (fun a => (i, a))⟩ j =
      Desk.jobsOf ⟨system, jobs⟩ j ++ if i = j then as else [] := by
  unfold Desk.jobsOf
  dsimp only
  rw [List.filter_append, List.map_append]
  congr 1
  by_cases hij : i = j
  · rw [if_pos hij, List.filter_eq_self.mpr, List.map_map]
    · exact List.map_id as
    · rw [List.forall_mem_map]
      exact fun _ _ => by simpa using hij
  · rw [if_neg hij, List.filter_eq_nil_iff.mpr]
    · rfl
    · rw [List.forall_mem_map]
      exact fun _ _ => by simpa using hij

/-- A timer that has fired gives its own answer. -/
theorem jobsOf_eraseIdx (system : System E.parser.State) {k i : Nat} {a : Answer}
    (hk : jobs[k]? = some (i, a)) :
    a ∈ Desk.jobsOf ⟨system, jobs⟩ i ∧
      (∀ b, Desk.jobsOf ⟨system, jobs⟩ i = [b] → Desk.jobsOf ⟨system, jobs.eraseIdx k⟩ i = []) ∧
      ∀ j, i ≠ j → Desk.jobsOf ⟨system, jobs.eraseIdx k⟩ j = Desk.jobsOf ⟨system, jobs⟩ j := by
  obtain ⟨hlen, hget⟩ := List.getElem?_eq_some_iff.mp hk
  obtain ⟨before, after, hjobs, herase⟩ : ∃ before after, jobs = before ++ (i, a) :: after ∧
      jobs.eraseIdx k = before ++ after := by
    refine ⟨jobs.take k, jobs.drop (k + 1), ?_, List.eraseIdx_eq_take_drop_succ jobs k⟩
    rw [← hget, ← List.drop_eq_getElem_cons hlen, List.take_append_drop]
  have hof : ∀ (l : List (Nat × Answer)) j,
      Desk.jobsOf ⟨system, l⟩ j = (l.filter (fun x => x.1 == j)).map Prod.snd := fun _ _ => rfl
  have hcons : ∀ j, ((i, a) :: after).filter (fun x => x.1 == j) =
      if i = j then (i, a) :: after.filter (fun x => x.1 == j) else after.filter (fun x => x.1 == j) := by
    intro j
    by_cases hij : i = j
    · simp [hij]
    · simp [hij]
  rw [herase]
  refine ⟨?_, fun b hb => ?_, fun j hij => ?_⟩
  · rw [hof]
    exact List.mem_map.mpr ⟨(i, a), List.mem_filter.mpr ⟨List.mem_of_getElem? hk, beq_self_eq_true i⟩,
      rfl⟩
  · rw [hjobs, hof, List.filter_append, hcons, if_pos rfl, List.map_append, List.map_cons] at hb
    rw [hof, List.filter_append, List.map_append]
    have hcount := congrArg List.length hb
    rw [List.length_append, List.length_cons, List.length_singleton] at hcount
    apply List.eq_nil_of_length_eq_zero
    rw [List.length_append]
    omega
  · rw [hjobs, hof, hof, List.filter_append, List.filter_append, hcons, if_neg hij]

end Jobs

/-! ## All connections -/

/-- The copies of the `shared_ptr` that handlers have kept. -/
def Slot.handles {State : Type} : Slot State → Nat
  | .alive p => p.handles
  | .destroyed _ => 0

theorem Slot.handles_settle {State : Type} (p : Peer State) : (Slot.settle p).handles = p.handles := by
  unfold Slot.settle
  split
  · rename_i h
    unfold Peer.owners at h
    change 0 = p.handles
    omega
  · rfl

/-- The law of a desk. -/
structure Serving {E : Externals} (tag : Bytes) (patterns : List Bytes) (plan : Request → Plan)
    (d : Desk E.parser.State) : Prop where
  apart : ∃ past, Apart (http E) tag patterns past d.system
  accepts : ∀ x ∈ d.system.connections, (answering (expected patterns plan)).Accepts none x.session.log
  thrown : d.system.stopped = some .exception ↔
    ∃ x ∈ d.system.connections, ∃ r ∈ requests x.session.log, expected patterns plan r = none
  tended : d.system.stopped = none → ∀ (i : Nat) x, d.system.connections[i]? = some x →
    Tended (expected patterns plan) (d.jobsOf i) x.session x.handles
  present : ∀ j ∈ d.jobs, j.1 < d.system.connections.length

section Desks

variable {E : Externals} {tag : Bytes} {patterns : List Bytes} {plan : Request → Plan}
variable {d d' : Desk E.parser.State} {ev : Desk.Event}

/-- As long as the program runs every request has been given to a handler that answers. -/
theorem Serving.answerable (h : Serving tag patterns plan d) (hrun : d.system.stopped = none)
    {x : Slot E.parser.State} (hx : x ∈ d.system.connections) :
    ∀ r ∈ requests x.session.log, expected patterns plan r ≠ none := by
  intro r hr hnone
  have hstop := h.thrown.mpr ⟨x, hx, r, hr, hnone⟩
  rw [hrun] at hstop
  cases hstop

/-- An activity of connection `i`. -/
theorem serving_finish (h : Serving tag patterns plan d) (hrun : d.system.stopped = none) {i : Nat}
    {p : Peer E.parser.State} (hp : d.system.connections[i]? = some (.alive p))
    {ran : Ran E.parser.State} {js : List Answer} (hleft : Left (expected patterns plan) js ran)
    {jobs : List (Nat × Answer)}
    (hapart : ∃ past, Apart (http E) tag patterns past (d.system.finish i ran))
    (hjs : Desk.jobsOf ⟨d.system.finish i ran, jobs⟩ i = js)
    (hothers : ∀ j, i ≠ j → Desk.jobsOf ⟨d.system.finish i ran, jobs⟩ j = d.jobsOf j)
    (hpresent : ∀ j ∈ jobs, j.1 < d.system.connections.length) :
    Serving tag patterns plan ⟨d.system.finish i ran, jobs⟩ := by
  obtain ⟨hi, -⟩ := List.getElem?_eq_some_iff.mp hp
  have hmem : ∀ x ∈ (d.system.finish i ran).connections,
      x ∈ d.system.connections ∨ x = Slot.settle ran.peer := fun x hx =>
    List.mem_or_eq_of_mem_set hx
  refine ⟨hapart, fun x hx => ?_, ⟨fun hstop => ?_, fun hr => ?_⟩, fun hstop j x hx => ?_, ?_⟩
  · rcases hmem x hx with hold | rfl
    · exact h.accepts x hold
    · rw [Slot.session_settle]
      exact hleft.accepts
  · obtain ⟨r, hr, hnone⟩ := hleft.thrown.mp hstop
    refine ⟨Slot.settle ran.peer, List.mem_set hi _, r, ?_, hnone⟩
    rw [Slot.session_settle]
    exact hr
  · obtain ⟨x, hx, r, hr, hnone⟩ := hr
    rcases hmem x hx with hold | rfl
    · exact absurd hnone (h.answerable hrun hold r hr)
    · rw [Slot.session_settle] at hr
      exact hleft.thrown.mpr ⟨r, hr, hnone⟩
  · rw [getElem?_finish hp] at hx
    by_cases hij : i = j
    · subst hij
      rw [if_pos rfl] at hx
      obtain rfl := Option.some.inj hx
      rw [Slot.session_settle, Slot.handles_settle, hjs]
      exact hleft.tended hstop
    · rw [if_neg hij] at hx
      rw [hothers j hij]
      exact h.tended hrun j x hx
  · intro j hj
    change j.1 < (d.system.connections.set i _).length
    rw [List.length_set]
    exact hpresent j hj

/-- A timer fires: the connection after all that its handler does is all that is left. -/
theorem handlePost_eq {s : System E.parser.State} {i : Nat} {p : Peer E.parser.State}
    (hrun : s.stopped = none) (hp : s.connections[i]? = some (.alive p)) (hh : 0 < p.handles)
    (hf : p.session.fault = none) (hl : p.session.lent = true) (a : Answer) :
    ∃ q, Desk.handlePost (http E) s i a = s.finish i ⟨s.server, q, false⟩ ∧
      q.session = p.session.handlerOps E (HttpConnection.async E) (a.ops ++ [.notifyAsyncReplyDone]) ∧
        (q.session.fault = none → q.handles = p.handles - 1) := by
  have hfollow := follow_handlers (T := http E) handlerOp_lent hrun hp hh hf hl
    (a.ops ++ [.notifyAsyncReplyDone]) [.release]
  obtain ⟨t, ht⟩ : ∃ t, p.session.handlerOps E (http E).transport.async
      (a.ops ++ [.notifyAsyncReplyDone]) = t := ⟨_, rfl⟩
  unfold Desk.handlePost
  rw [hfollow, ht]
  obtain ⟨hi, -⟩ := List.getElem?_eq_some_iff.mp hp
  by_cases hfault : t.fault = none
  · rw [if_pos hfault]
    refine ⟨{ p with session := t, handles := p.handles - 1 }, ?_, ht.symm, fun _ => rfl⟩
    have hplaced : (s.place i { p with session := t }).connections[i]? =
        some (.alive { p with session := t }) := by
      change (s.connections.set i _)[i]? = _
      rw [List.getElem?_set_self hi]
    have hact : Activity.release.run (http E) s.server { p with session := t } =
        some ⟨s.server, { p with session := t, handles := p.handles - 1 }, false⟩ := if_pos hh
    have hstep := step_connection_iff (T := http E) (s := s.place i { p with session := t }).mpr
      ⟨hrun, _, _, hplaced, hact, rfl⟩
    rw [Desk.follow, hstep]
    have htwice : ∀ x y : Slot E.parser.State, (s.connections.set i x).set i y =
        s.connections.set i y := fun x y => List.set_set x
    unfold System.place System.finish
    dsimp only
    rw [htwice]
    rfl
  · rw [if_neg hfault]
    exact ⟨{ p with session := t }, rfl, ht.symm, fun hnone => absurd hnone hfault⟩

theorem serving_accept (h : Serving tag patterns plan d) {n : Nat} {e : ErrorCode}
    {junk : Uninitialised} {t : System E.parser.State}
    (hs : System.step (http E) d.system (.accept n e junk) = some t) :
    Serving tag patterns plan { d with system := t } := by
  obtain ⟨past, hapart⟩ := h.apart
  have hapart' : ∃ past, Apart (http E) tag patterns past t := ⟨_, apart_step hapart hs⟩
  obtain ⟨hrun, hstep⟩ := System.stepped_of_step (http E) hs
  obtain ⟨junk', hnext⟩ := hapart.next
  cases hstep with
  | deaf e junk he ha => exact ⟨hapart', h.accepts, h.thrown, h.tended, h.present⟩
  | accepted junk ha =>
    obtain ⟨s, hs⟩ : ∃ s, (http E).started d.system.acceptor.newConnection = s := ⟨_, rfl⟩
    have hset : HttpConnection.Settled s := by
      rw [← hs, hnext]
      exact HttpConnection.start_settled tag junk'
    have hserved : Served (expected patterns plan) [] s := by
      rw [← hs, hnext]
      exact startRead_served trivial rfl ⟨rfl, Or.inl rfl⟩
    have hsilent : requests s.log = [] := by
      rw [← hs]
      rfl
    rw [hs] at hapart' ⊢
    refine ⟨hapart', ?_, ⟨fun hstop => ?_, fun hr => ?_⟩, fun hstop i x hx => ?_, fun j hj => ?_⟩
    · exact List.forall_mem_append.mpr ⟨h.accepts, List.forall_mem_singleton.mpr hserved.accepts⟩
    · rw [hrun] at hstop
      cases hstop
    · obtain ⟨x, hx, r, hr, hnone⟩ := hr
      rcases List.mem_append.mp hx with hold | hnew
      · exact absurd hnone (h.answerable hrun hold r hr)
      · obtain rfl := List.mem_singleton.mp hnew
        have hmem : r ∈ requests s.log := hr
        rw [hsilent] at hmem
        cases hmem
    · rcases getElem?_concat_eq_some hx with hold | ⟨rfl, rfl⟩
      · exact h.tended hrun i x hold
      · have hnone : d.jobsOf d.system.connections.length = [] :=
          jobsOf_eq_nil fun j hj => Nat.ne_of_lt (h.present j hj)
        have hjobs : Desk.jobsOf { d with system := { d.system with
            acceptor := { d.system.acceptor with
              newConnection := .new d.system.acceptor.requestIdHeader junk E.parser.init }
            connections := d.system.connections ++ [.alive ⟨s, 0, 0⟩]
            contextCount := d.system.contextCount + 1 } } d.system.connections.length = [] := hnone
        rw [hjobs]
        exact ⟨hserved, hset, rfl⟩
    · have hlt := h.present j hj
      change j.1 < (d.system.connections ++ [_]).length
      rw [List.length_append]
      omega

/-- A completion changes no answer that is to be given. -/
theorem serving_completion (h : Serving tag patterns plan d) {i : Nat} {a : Activity}
    (hkind : (∃ ev, a = .complete ev) ∨ a = .shutdown) {t : System E.parser.State}
    (hs : System.step (http E) d.system (.connection i a) = some t) :
    Serving tag patterns plan { d with system := t } := by
  obtain ⟨past, hapart⟩ := h.apart
  have hapart' : ∃ past, Apart (http E) tag patterns past t := ⟨_, apart_step hapart hs⟩
  obtain ⟨hrun, hstep⟩ := System.stepped_of_step (http E) hs
  cases hstep with
  | connection _ _ p ran hp ha =>
  have hleft := completion_left (h.tended hrun i _ hp)
    (h.answerable hrun (List.mem_of_getElem? hp)) ha hkind
  exact serving_finish h hrun hp hleft hapart' rfl (fun _ _ => rfl) h.present

/-- Where the timer of a job finds its connection, and how it leaves it. -/
theorem Serving.job (h : Serving tag patterns plan d) (hrun : d.system.stopped = none) {k i : Nat}
    {a : Answer} (hk : d.jobs[k]? = some (i, a)) : ∃ p q,
      d.system.connections[i]? = some (.alive p) ∧ d.jobsOf i = [a] ∧ p.session.lent = true ∧
        p.session.exchange = .waiting ∧
          Desk.handlePost (http E) d.system i a = d.system.finish i ⟨d.system.server, q, false⟩ ∧
            q.session = p.session.handlerOps E (HttpConnection.async E)
              (a.ops ++ [.notifyAsyncReplyDone]) ∧ (q.session.fault = none → q.handles = 0) := by
  have hi := h.present _ (List.mem_of_getElem? hk)
  obtain ⟨x, hx⟩ : ∃ x, d.system.connections[i]? = some x := ⟨_, List.getElem?_eq_getElem hi⟩
  have htended := h.tended hrun i x hx
  obtain ⟨hjs, hlent, hwaiting⟩ := htended.waiting (jobsOf_eraseIdx d.system hk).1
  have hone : x.handles = 1 := by
    have hlen := htended.handles
    have hjobs : (d.jobsOf i).length = 1 := congrArg List.length hjs
    rwa [hjobs] at hlen
  cases x with
  | destroyed last => cases hone
  | alive p =>
    obtain ⟨past, hapart⟩ := h.apart
    have hpos : 0 < p.handles := Nat.lt_of_lt_of_eq Nat.zero_lt_one hone.symm
    obtain ⟨q, hq, hsession, hreleased⟩ :=
      handlePost_eq hrun hx hpos (hapart.unfaulted hrun i _ hx) hlent a
    refine ⟨p, q, hx, hjs, hlent, hwaiting, hq, hsession, fun hnone => ?_⟩
    have hhandles : p.handles = 1 := hone
    rw [hreleased hnone, hhandles]

/-- The timer of a handler fires. -/
theorem serving_job (h : Serving tag patterns plan d) (hrun : d.system.stopped = none) {k i : Nat}
    {a : Answer} (hk : d.jobs[k]? = some (i, a))
    (hapart : ∃ past, Apart (http E) tag patterns past (Desk.handlePost (http E) d.system i a)) :
    Serving tag patterns plan ⟨Desk.handlePost (http E) d.system i a, d.jobs.eraseIdx k⟩ := by
  obtain ⟨p, q, hp, hjs, hlent, hwaiting, hq, hsession, hhandles⟩ := h.job hrun hk
  obtain ⟨past, hpast⟩ := h.apart
  have htended : Tended (expected patterns plan) [a] p.session p.handles :=
    hjs ▸ h.tended hrun i _ hp
  have hleft := posted_left d.system.server htended hwaiting
    (hpast.unfaulted hrun i _ hp) (h.answerable hrun (List.mem_of_getElem? hp)) hsession hhandles
  rw [hq] at hapart ⊢
  refine serving_finish h hrun hp hleft hapart ?_ ?_ ?_
  · exact (jobsOf_eraseIdx d.system hk).2.1 a hjs
  · exact fun j hij => (jobsOf_eraseIdx d.system hk).2.2 j hij
  · exact fun j hj => h.present j (List.mem_of_mem_eraseIdx hj)

theorem serving_step (h : Serving tag patterns plan d)
    (hs : Desk.step (http E) patterns plan d ev = some d') : Serving tag patterns plan d' := by
  obtain ⟨past, hapart⟩ := h.apart
  obtain ⟨es, hes⟩ := Desk.step_runs hs
  have hapart' : ∃ past, Apart (http E) tag patterns past d'.system := ⟨_, hapart.runs hes⟩
  cases ev with
  | accept n e junk =>
    obtain ⟨t, ht, rfl⟩ := Option.map_eq_some_iff.mp hs
    exact serving_accept h ht
  | read i e bytes =>
    obtain ⟨hrun, p, ran, hq, ha, rfl⟩ := Desk.acted_of_read hs
    have htended := h.tended hrun i _ hq
    obtain ⟨hnil, hleft⟩ := read_left hapart.registered htended (hapart.unfaulted hrun i _ hq)
      (h.answerable hrun (List.mem_of_getElem? hq)) rfl ha
    refine serving_finish h hrun hq hleft hapart' ?_ (fun j hij => ?_) ?_
    · rw [jobsOf_append, if_pos rfl]
      exact (congrArg (· ++ _) hnil).trans (List.nil_append _)
    · rw [jobsOf_append, if_neg hij]
      exact List.append_nil _
    · refine List.forall_mem_append.mpr ⟨h.present, ?_⟩
      rw [List.forall_mem_map]
      exact fun _ _ => (List.getElem?_eq_some_iff.mp hq).1
  | complete i ev =>
    obtain ⟨t, ht, rfl⟩ := Option.map_eq_some_iff.mp hs
    exact serving_completion h (Or.inl ⟨ev, rfl⟩) ht
  | shutdown i =>
    obtain ⟨t, ht, rfl⟩ := Option.map_eq_some_iff.mp hs
    exact serving_completion h (Or.inr rfl) ht
  | job k =>
    obtain ⟨hrun, hs⟩ := Option.ite_none_left_eq_some.mp hs
    obtain ⟨j, hj, rfl⟩ := Option.map_eq_some_iff.mp hs
    exact serving_job h (by simpa using hrun) hj hapart'

theorem serving_start (E : Externals) (tag : Bytes) (junk : Uninitialised)
    (regs : List (Bytes × UInt64)) (plan : Request → Plan) :
    Serving tag (regs.map Prod.fst) plan (Desk.start (http E) tag junk regs) where
  apart := ⟨[], apart_start (http E) tag junk regs⟩
  accepts _ hx := by cases hx
  thrown := by
    refine iff_of_false (fun hstop => by cases hstop) fun hr => ?_
    obtain ⟨x, hx, -⟩ := hr
    cases hx
  tended _ _ _ hx := by cases hx
  present _ hj := by cases hj

theorem serving_runs (E : Externals) (tag : Bytes) (junk : Uninitialised)
    (regs : List (Bytes × UInt64)) (plan : Request → Plan) {es : List Desk.Event}
    {u : Desk E.parser.State}
    (h : runs (Desk.step (http E) (regs.map Prod.fst) plan) (Desk.start (http E) tag junk regs) es =
      some u) : Serving tag (regs.map Prod.fst) plan u :=
  invariant (I := fun d => Serving tag (regs.map Prod.fst) plan d) (D := fun _ _ => True)
    (fun _ _ _ hI _ hs => serving_step hI hs) (serving_start E tag junk regs plan)
    (along_of_forall (fun _ _ => trivial) _ _) h

/-- The answer that a connection owes is in a timer, or it has been handed in and
`handle_async_reply_done` is on its way; one that owes nothing has no timer. -/
def Desk.Due (d : Desk E.parser.State) (i : Nat) (s : Session E.parser.State) :
    Option Answer → Prop
  | none => d.jobsOf i = []
  | some a => (d.jobsOf i = [a] ∧ s.posted = 0) ∨ (d.jobsOf i = [] ∧ s.posted = 1)

theorem Tended.due {expected : Request → Option Answer} {i : Nat} {s : Session E.parser.State}
    {handles : Nat} (h : Tended expected (d.jobsOf i) s handles) (hf : s.fault = none) :
    d.Due i s ((answering expected).after none s.log) := by
  have howes := h.served.owes
  have hst := h.settled.staged.stage
  cases hx : s.exchange with
  | idle | replied =>
    rw [hx] at howes
    rw [howes.1]
    exact howes.2
  | waiting =>
    rw [hx] at howes hst
    obtain ⟨-, a, howed, hjs⟩ := howes
    rw [howed]
    exact Or.inl ⟨hjs, hst.2.2.1⟩
  | notified r =>
    rw [hx] at howes hst
    obtain ⟨a, howed, -, hjs⟩ := howes
    rw [howed]
    exact Or.inr ⟨hjs, hst.2.2.1⟩
  | dispatched => exact absurd hx (h.settled.answered hf)
  | sending r =>
    rw [hx] at howes
    exact absurd howes id

/-- Clients, timers and the server take their steps in any order, and every request gets its own
answer before its connection reads on: at once, or from the one timer that holds it. The program
ends with an exception exactly when a client has sent a request at which a handler throws. -/
theorem requests_answered (E : Externals) (tag : Bytes) (junk : Uninitialised)
    (regs : List (Bytes × UInt64)) (plan : Request → Plan) {es : List Desk.Event}
    {u : Desk E.parser.State}
    (h : runs (Desk.step (http E) (regs.map Prod.fst) plan) (Desk.start (http E) tag junk regs) es =
      some u) :
    (∀ x ∈ u.system.connections,
      (answering (expected (regs.map Prod.fst) plan)).Accepts none x.session.log) ∧
    (u.system.stopped = some .exception ↔ ∃ x ∈ u.system.connections,
      ∃ r ∈ requests x.session.log, expected (regs.map Prod.fst) plan r = none) ∧
    (u.system.stopped = none → ∀ (i : Nat) x, u.system.connections[i]? = some x →
      u.Due i x.session ((answering (expected (regs.map Prod.fst) plan)).after none x.session.log)) := by
  have hserving := serving_runs E tag junk regs plan h
  refine ⟨hserving.accepts, hserving.thrown, fun hrun i x hx => ?_⟩
  obtain ⟨past, hapart⟩ := hserving.apart
  exact (hserving.tended hrun i x hx).due (hapart.unfaulted hrun i x hx)

end Desks

/-- Two clients. The answer to the first is put off, and given while the second one is served. -/
def deferredGets : List Desk.Event :=
  [.accept 0 .success .zero, .read 0 .success (getBytes (ascii "/")), .accept 1 .success .zero,
    .job 0, .read 1 .success (getBytes (ascii "/")), .complete 0 .asyncReplyDone,
    .complete 0 (.write 0 .success)]

/-- Greets every client, a little later. -/
def greet : Request → Plan := fun _ => .later ⟨.ok, [ascii "hello "]⟩

theorem requests_answered_deferredGets : ∃ u,
    runs (Desk.step (http getServer) [ascii "/"] greet)
      (Desk.start (http getServer) [] .zero [(ascii "/", 0)]) deferredGets = some u ∧
    (∀ x ∈ u.system.connections,
      (answering (expected [ascii "/"] greet)).Accepts none x.session.log) ∧
    (u.system.stopped = some .exception ↔ ∃ x ∈ u.system.connections,
      ∃ r ∈ requests x.session.log, expected [ascii "/"] greet r = none) ∧
    (u.system.stopped = none → ∀ (i : Nat) x, u.system.connections[i]? = some x →
      u.Due i x.session ((answering (expected [ascii "/"] greet)).after none x.session.log)) := by
  obtain ⟨u, hu⟩ : ∃ u, runs (Desk.step (http getServer) [ascii "/"] greet)
      (Desk.start (http getServer) [] .zero [(ascii "/", 0)]) deferredGets = some u := ⟨_, rfl⟩
  exact ⟨u, hu, requests_answered getServer [] .zero [(ascii "/", 0)] greet hu⟩

end CsiHttp.Service

import CsiHttp.Lib.Runs
import CsiHttp.Server.TableParser
import CsiHttp.Service.Service

/-!
# Every connection for itself

What a handler table does to a connection depends on its patterns only: the request goes to
the first pattern that accepts its url, and only the counter of that one changes. Seen from one
connection, a run of the system is a run of the connection alone.
-/
namespace CsiHttp.Server.Session

open Lib Lib.Text

variable {E : Externals} {A : AsyncReply E.parser.State}
variable {prepare : Session E.parser.State → Session E.parser.State} {bytes : Bytes}
variable {s c : Session E.parser.State}

/-- A read whose connection is not passed on does not depend on any handler. -/
theorem readSucceeded_of_not_presented (h : s.presented E prepare bytes = none)
    (ops : List HandlerOp) :
    s.readSucceeded E A prepare bytes ops = s.readSucceeded E A prepare bytes [] := by
  unfold presented at h
  unfold readSucceeded
  cases hp : (s.conn.httpParse E.parser bytes).result with
  | error f => rfl
  | ok n =>
    rw [hp] at h
    dsimp only at h ⊢
    by_cases hn : n ≠ bytes.length
    · rw [if_pos hn, if_pos hn]
    · rw [if_neg hn, if_neg hn]
      have hc : ¬ ((s.parse E bytes).note (.parsed bytes.length n)).conn.requestComplete = true := by
        intro hc
        rw [if_pos ⟨not_not.mp hn, hc⟩] at h
        cases h
      rw [if_neg hc, if_neg hc]

/-- Otherwise the handler gets the connection as it was passed on. -/
theorem readSucceeded_of_presented (h : s.presented E prepare bytes = some c)
    (ops : List HandlerOp) :
    s.readSucceeded E A prepare bytes ops = (c.handlerOps E A ops).resume E := by
  unfold presented at h
  unfold readSucceeded
  cases hp : (s.conn.httpParse E.parser bytes).result with
  | error f =>
    rw [hp] at h
    cases h
  | ok n =>
    rw [hp] at h
    dsimp only at h ⊢
    obtain ⟨⟨hn, hc⟩, h⟩ := Option.ite_none_right_eq_some.mp h
    obtain rfl := Option.some.inj h
    rw [if_neg (not_not.mpr hn), if_pos hc]
    rfl

end CsiHttp.Server.Session

namespace CsiHttp.Service

open Lib Lib.Text Lib.Runs Server

/-! ## The handler of a request -/

/-- The number of the pattern to which a url goes. -/
def routed (patterns : List Bytes) (url : Bytes) : Option Nat :=
  patterns.findIdx? (fun p => (UriPattern.new p).accepts (split url))

/-- The actions that stand for the 404 of `server::handle_request`. -/
def notFoundOps : List HandlerOp := [.create .notFound Reply.textHtml 0]

/-- What happens to a request that goes to pattern `k`, or to none. -/
def Reaction.at (r : Reaction) : Option Nat → Reaction
  | some _ => r
  | none => ⟨notFoundOps, 0, false⟩

/-- The server after a request that has gone to pattern `k`, or to none. -/
def bump {State : Type} (server : Server (Visit State)) : Option Nat → Server (Visit State)
  | some k => ⟨server.handlers.modify k HandlerData.count⟩
  | none => server

/-- The handlers of the server are those of `patterns`. -/
def Registered {State : Type} (h : Handler (Visit State)) (patterns : List Bytes)
    (server : Server (Visit State)) : Prop :=
  Server.Registers server.handlers (patterns.map (fun p => (p, h)))

section Requests

variable {State : Type} {h : Handler (Visit State)} {patterns : List Bytes}
variable {server : Server (Visit State)}

theorem Registered.bump (hs : Registered h patterns server) (k : Option Nat) :
    Registered h patterns (bump server k) := by
  cases k with
  | none => exact hs
  | some k => exact (Server.registers_modify _ k).trans hs

theorem registered_registerAll (h : Handler (Visit State)) (regs : List (Bytes × UInt64)) :
    Registered h (regs.map Prod.fst) (System.registerAll h regs) := by
  have hall : ∀ (server : Server (Visit State)) (patterns : List Bytes),
      Registered h patterns server → Registered h (patterns ++ regs.map Prod.fst)
        (regs.foldl (fun s r => s.addHandler r.1 h r.2) server) := by
    induction regs with
    | nil =>
      intro server patterns hs
      rwa [List.map_nil, List.append_nil]
    | cons r regs ih =>
      intro server patterns hs
      have hadd : Registered h (patterns ++ [r.1]) (server.addHandler r.1 h r.2) := by
        unfold Registered Server.Registers at hs ⊢
        rw [Server.addHandler, List.map_append, List.map_append, List.map_append, hs]
        rfl
      have hrest := ih _ _ hadd
      rwa [List.append_assoc] at hrest
  exact hall .new [] rfl

/-- `server::handle_request`, in terms of the patterns. -/
theorem handleRequest_eq (hs : Registered h patterns server) (v : Visit State) :
    server.handleRequest v = match routed patterns (ConnectionType.url v) with
      | some k => (bump server (some k), h (split (ConnectionType.url v)) v)
      | none => (server, .returned (ConnectionType.createNotFound v)) := by
  unfold Server.handleRequest
  obtain ⟨before, r, after, hrs, hbefore, hr, hcall⟩ | ⟨hnone, hcall⟩ :=
    Server.callFirst_eq hs (ConnectionType.url v) v
  · obtain ⟨bs, rest, rfl, hbs, hrest⟩ := List.map_eq_append_iff.mp hrs
    obtain ⟨p, as, rfl, rfl, -⟩ := List.map_eq_cons_iff.mp hrest
    have hk : routed (bs ++ p :: as) (ConnectionType.url v) = some before.length := by
      unfold routed
      rw [List.findIdx?_append, List.findIdx?_eq_none_iff.mpr, Option.none_or, List.findIdx?_cons,
        if_pos ((Server.serves_iff _ _).mp hr), ← hbs, List.length_map]
      · simp
      · intro b hb
        have hno := hbefore (b, h) (hbs ▸ List.mem_map_of_mem hb)
        exact Bool.not_eq_true _ ▸ (Server.serves_iff _ _).not.mp hno
    rw [hcall, hk]
    rfl
  · have hk : routed patterns (ConnectionType.url v) = none := by
      apply List.findIdx?_eq_none_iff.mpr
      intro b hb
      have hno := hnone (b, h) (List.mem_map_of_mem hb)
      exact Bool.not_eq_true _ ▸ (Server.serves_iff _ _).not.mp hno
    rw [hcall, hk]

end Requests

variable {E : Externals} (T : Scheme E)

/-- What the pattern of its url does to a connection that has been passed on. -/
def answered (c : Session E.parser.State) (r : Reaction) : Session E.parser.State :=
  if r.throws then c.handlerOps E T.transport.async r.ops
  else (c.handlerOps E T.transport.async r.ops).resume E

/-- A read that has failed brings no request. -/
theorem presented_of_failed {e : ErrorCode} (he : e ≠ .success) (bytes : Bytes)
    (s : Session E.parser.State) : T.presented e bytes s = none := by
  cases e with
  | success => exact absurd rfl he
  | operationAborted | failure => rfl

theorem handleRead_of_not_presented {server : Server (Visit E.parser.State)} {e : ErrorCode}
    {bytes : Bytes} {p : Peer E.parser.State} (h : T.presented e bytes p.session = none)
    (r : Reaction) : handleRead T server e bytes r p =
      ⟨server, { p with session := T.transport.handleRead e bytes [] p.session }, false⟩ := by
  unfold handleRead
  rw [h]

/-- `handle_read` with a table of handlers that may do anything. -/
theorem handleRead_of_presented {patterns : List Bytes} {server : Server (Visit E.parser.State)}
    (hs : Registered (react E T.transport.async) patterns server) {e : ErrorCode} {bytes : Bytes}
    {p : Peer E.parser.State} {c : Session E.parser.State}
    (h : T.presented e bytes p.session = some c) (r : Reaction) {k : Option Nat}
    (hk : routed patterns c.conn.request.url = k) : handleRead T server e bytes r p =
      ⟨bump server k, { p with
        session := answered T c (r.at k)
        handles := p.handles + (r.at k).keeps }, (r.at k).throws⟩ := by
  unfold handleRead
  rw [h]
  dsimp only
  rw [handleRequest_eq hs, show ConnectionType.url (⟨c, r, 0⟩ : Visit E.parser.State) =
    c.conn.request.url from rfl, hk]
  cases k with
  | some k =>
    dsimp only [Reaction.at, react, answered]
    cases hr : r.throws <;> rfl
  | none =>
    have hops : c.handlerOps E T.transport.async notFoundOps =
        c.takeReply (c.conn.reply.create .notFound Reply.textHtml 0) := by
      unfold notFoundOps
      simp only [Session.handlerOps, Session.handlerOp, Session.andThen]
      exact ite_self _
    dsimp only [Reaction.at, answered]
    rw [hops]
    rfl

/-! ## Steps -/

/-- What an activity does, and when it can occur. -/
inductive Acted (server : Server (Visit E.parser.State)) (p : Peer E.parser.State) :
    Activity → Ran E.parser.State → Prop where
  | read (e : ErrorCode) (bytes : Bytes) (r : Reaction) (hr : 0 < p.session.reads)
      (hb : fillsBuffer e bytes = true) : Acted server p (.read e bytes r)
        (handleRead T server e bytes r
          { p with session := { p.session with reads := p.session.reads - 1 } })
  | complete (ev : Server.Event) (s : Session E.parser.State) (hev : isCompletion ev = true)
      (hs : p.session.step E T.transport ev = some s) : Acted server p (.complete ev)
        ⟨server, ⟨s, p.handles, p.shutdowns + startedShutdowns T p.session ev⟩, false⟩
  | handler (op : HandlerOp) (s : Session E.parser.State) (hh : 0 < p.handles)
      (hs : p.session.step E T.transport (.handler op) = some s) :
      Acted server p (.handler op) ⟨server, { p with session := s }, false⟩
  | copy (hh : 0 < p.handles) :
      Acted server p .copy ⟨server, { p with handles := p.handles + 1 }, false⟩
  | release (hh : 0 < p.handles) :
      Acted server p .release ⟨server, { p with handles := p.handles - 1 }, false⟩
  | shutdown (hh : 0 < p.shutdowns) :
      Acted server p .shutdown ⟨server, { p with shutdowns := p.shutdowns - 1 }, false⟩

theorem acted_of_run {server : Server (Visit E.parser.State)} {p : Peer E.parser.State}
    {a : Activity} {ran : Ran E.parser.State} (h : a.run T server p = some ran) :
    Acted T server p a ran := by
  have hguard : ∀ {q : Prop} [Decidable q] {x : Ran E.parser.State},
      (if q then some x else none) = some ran → q ∧ x = ran := by
    intro q _ x hg
    obtain ⟨hq, hx⟩ := Option.ite_none_right_eq_some.mp hg
    exact ⟨hq, Option.some.inj hx⟩
  cases a with
  | read e bytes r =>
    obtain ⟨⟨hr, hb⟩, rfl⟩ := hguard h
    exact .read e bytes r hr hb
  | complete ev =>
    obtain ⟨hev, h⟩ := Option.ite_none_right_eq_some.mp h
    obtain ⟨s, hs, rfl⟩ := Option.map_eq_some_iff.mp h
    exact .complete ev s hev hs
  | handler op =>
    obtain ⟨hh, h⟩ := Option.ite_none_right_eq_some.mp h
    obtain ⟨s, hs, rfl⟩ := Option.map_eq_some_iff.mp h
    exact .handler op s hh hs
  | copy =>
    obtain ⟨hh, rfl⟩ := hguard h
    exact .copy hh
  | release =>
    obtain ⟨hh, rfl⟩ := hguard h
    exact .release hh
  | shutdown =>
    obtain ⟨hh, rfl⟩ := hguard h
    exact .shutdown hh

namespace System

/-- What the system does, and when it can. -/
inductive Stepped (s : System E.parser.State) : Event → System E.parser.State → Prop where
  | accepted (junk : Uninitialised) (ha : s.accepting = true) :
      Stepped s (.accept s.connections.length .success junk)
        { s with
          acceptor := { s.acceptor with
            newConnection := .new s.acceptor.requestIdHeader junk E.parser.init }
          connections := s.connections ++ [.alive ⟨T.started s.acceptor.newConnection, 0, 0⟩]
          contextCount := s.contextCount + 1 }
  | deaf (e : ErrorCode) (junk : Uninitialised) (he : e ≠ .success) (ha : s.accepting = true) :
      Stepped s (.accept s.connections.length e junk) { s with accepting := false }
  | connection (i : Nat) (a : Activity) (p : Peer E.parser.State) (ran : Ran E.parser.State)
      (hp : s.connections[i]? = some (.alive p)) (ha : Acted T s.server p a ran) :
      Stepped s (.connection i a) (s.finish i ran)

theorem peer_eq_some {State : Type} {s : System State} {i : Nat} {p : Peer State} :
    s.peer i = some p ↔ s.connections[i]? = some (.alive p) := by
  unfold peer
  rw [Option.bind_eq_some_iff]
  constructor
  · intro h
    obtain ⟨x, hx, h⟩ := h
    cases x with
    | alive q =>
      obtain rfl := Option.some.inj h
      exact hx
    | destroyed last => cases h
  · exact fun h => ⟨_, h, rfl⟩

theorem stepped_of_step {s t : System E.parser.State} {ev : Event} (h : step T s ev = some t) :
    s.stopped = none ∧ Stepped T s ev t := by
  obtain ⟨hs, hstep⟩ := Option.ite_none_left_eq_some.mp h
  refine ⟨by simpa using hs, ?_⟩
  cases ev with
  | accept n e junk =>
    obtain ⟨⟨ha, hn⟩, ht⟩ := Option.ite_none_right_eq_some.mp hstep
    obtain rfl := Option.some.inj ht
    subst hn
    cases e with
    | success => exact .accepted junk ha
    | operationAborted => exact .deaf .operationAborted junk ErrorCode.noConfusion ha
    | failure => exact .deaf .failure junk ErrorCode.noConfusion ha
  | connection i a =>
    obtain ⟨p, hp, hmap⟩ := Option.bind_eq_some_iff.mp hstep
    obtain ⟨ran, hran, rfl⟩ := Option.map_eq_some_iff.mp hmap
    exact .connection i a p ran (peer_eq_some.mp hp) (acted_of_run T hran)

end System

/-! ## Runs -/

/-- What happens at connection `i`. -/
def activities (i : Nat) (es : List Event) : List Activity :=
  es.filterMap (fun ev => match ev with
    | .connection j a => if j = i then some a else none
    | .accept _ _ _ => none)

/-- The events of a connection on its own that activities stand for. A read comes with the actions
of the handler of its request, or with those of a 404. -/
inductive Mirrors : List Activity → List Server.Event → Prop where
  | nil : Mirrors [] []
  | read (e : ErrorCode) (bytes : Bytes) (r : Reaction) (ops : List HandlerOp)
      (hops : ops = r.ops ∨ ops = notFoundOps) {as : List Activity} {evs : List Server.Event}
      (h : Mirrors as evs) : Mirrors (as ++ [.read e bytes r]) (evs ++ [.read e bytes ops])
  | complete (ev : Server.Event) {as : List Activity} {evs : List Server.Event}
      (h : Mirrors as evs) : Mirrors (as ++ [.complete ev]) (evs ++ [ev])
  | handler (op : HandlerOp) {as : List Activity} {evs : List Server.Event}
      (h : Mirrors as evs) : Mirrors (as ++ [.handler op]) (evs ++ [.handler op])
  | aside (a : Activity) (ha : a = .copy ∨ a = .release ∨ a = .shutdown) {as : List Activity}
      {evs : List Server.Event} (h : Mirrors as evs) : Mirrors (as ++ [a]) evs

theorem activities_concat (i : Nat) (es : List Event) (ev : Event) :
    activities i (es ++ [ev]) = activities i es ++ activities i [ev] := List.filterMap_append

theorem activities_self (i : Nat) (a : Activity) : activities i [.connection i a] = [a] := by
  simp [activities]

theorem activities_ne {i j : Nat} (hij : i ≠ j) (a : Activity) :
    activities j [.connection i a] = [] := by
  simp [activities, hij]

theorem Slot.session_settle {State : Type} (p : Peer State) :
    (Slot.settle p).session = p.session := by
  unfold Slot.settle
  split <;> rfl

/-- The program has not been ended by an exception. -/
def Ran.Regular {State : Type} (ran : Ran State) : Prop := ran.stop ≠ some .exception

theorem Ran.regular_iff {State : Type} {ran : Ran State} :
    ran.Regular ↔ ran.peer.session.fault ≠ none ∨ ran.threw = false := by
  unfold Ran.Regular Ran.stop
  cases ran.peer.session.fault with
  | some f => simp
  | none => cases ran.threw <;> simp

theorem andThen_of_fault {State : Type} {s : Session State} (h : s.fault ≠ none)
    (f : Session State → Session State) : s.andThen f = s :=
  if_pos (Option.isSome_iff_ne_none.mpr h)

section Runs

variable {T}
variable {patterns : List Bytes} {server : Server (Visit E.parser.State)}
variable {p : Peer E.parser.State} {ran : Ran E.parser.State}

/-- A read of the system is a read of the connection, with the actions of some handler. -/
theorem handleRead_session (hs : Registered (react E T.transport.async) patterns server)
    (e : ErrorCode) (bytes : Bytes) (r : Reaction)
    (hreg : (handleRead T server e bytes r p).Regular) :
    ∃ ops, (ops = r.ops ∨ ops = notFoundOps) ∧
      (handleRead T server e bytes r p).peer.session =
        T.transport.handleRead e bytes ops p.session := by
  cases hpres : T.presented e bytes p.session with
  | none =>
    refine ⟨r.ops, Or.inl rfl, ?_⟩
    rw [handleRead_of_not_presented T hpres]
    by_cases he : e = .success
    · subst he
      dsimp only
      rw [T.reads, T.reads]
      exact (Session.readSucceeded_of_not_presented hpres _).symm
    · exact (T.fails e bytes r.ops _ he).symm
  | some c =>
    rw [handleRead_of_presented T hs hpres r rfl] at hreg ⊢
    obtain ⟨k, hk⟩ : ∃ k, routed patterns c.conn.request.url = k := ⟨_, rfl⟩
    rw [hk] at hreg ⊢
    have hops : (r.at k).ops = r.ops ∨ (r.at k).ops = notFoundOps := by
      cases k with
      | some k => exact Or.inl rfl
      | none => exact Or.inr rfl
    refine ⟨(r.at k).ops, hops, ?_⟩
    have hanswer : answered T c (r.at k) =
        (c.handlerOps E T.transport.async (r.at k).ops).resume E := by
      unfold answered
      -- an exception that does not end the program comes after a crash
      by_cases hthrows : (r.at k).throws = true
      · rcases Ran.regular_iff.mp hreg with hfault | hno
        · unfold answered at hfault
          rw [if_pos hthrows] at hfault ⊢
          exact (andThen_of_fault hfault _).symm
        · exact absurd (hthrows.symm.trans hno) Bool.noConfusion
      · rw [if_neg hthrows]
    cases e with
    | operationAborted => cases hpres
    | failure => cases hpres
    | success =>
      dsimp only
      rw [hanswer, T.reads]
      exact (Session.readSucceeded_of_presented hpres _).symm

/-- What an activity is for the connection on its own. -/
theorem Acted.mirrored {a : Activity} (hs : Registered (react E T.transport.async) patterns server)
    (ha : Acted T server p a ran) (hf : p.session.fault = none) (hreg : ran.Regular)
    {as : List Activity} {evs : List Server.Event} (hm : Mirrors as evs) :
    ∃ evs', Mirrors (as ++ [a]) (evs ++ evs') ∧
      runs (Session.step E T.transport) p.session evs' = some ran.peer.session := by
  cases ha with
  | read e bytes r hr hb =>
    obtain ⟨ops, hops, hsession⟩ := handleRead_session hs e bytes r hreg
    refine ⟨[.read e bytes ops], hm.read e bytes r ops hops, ?_⟩
    rw [runs_cons_iff]
    refine ⟨_, ?_, rfl⟩
    have hready : 0 < p.session.reads ∧ fillsBuffer e bytes = true := ⟨hr, hb⟩
    rw [hsession, Session.step, if_neg (by rw [hf]; exact Bool.false_ne_true)]
    exact if_pos hready
  | complete ev s hev hs =>
    exact ⟨[ev], hm.complete ev, runs_cons_iff.mpr ⟨s, hs, rfl⟩⟩
  | handler op s hh hs =>
    exact ⟨[.handler op], hm.handler op, runs_cons_iff.mpr ⟨s, hs, rfl⟩⟩
  | copy hh =>
    refine ⟨[], ?_, rfl⟩
    rw [List.append_nil]
    exact hm.aside .copy (Or.inl rfl)
  | release hh =>
    refine ⟨[], ?_, rfl⟩
    rw [List.append_nil]
    exact hm.aside .release (Or.inr (Or.inl rfl))
  | shutdown hh =>
    refine ⟨[], ?_, rfl⟩
    rw [List.append_nil]
    exact hm.aside .shutdown (Or.inr (Or.inr rfl))

end Runs

/-- What is found in a list with one more element is old or new. -/
theorem getElem?_concat_eq_some {α : Type} {l : List α} {a x : α} {i : Nat}
    (h : (l ++ [a])[i]? = some x) : l[i]? = some x ∨ (i = l.length ∧ x = a) := by
  rcases Nat.lt_trichotomy i l.length with hlt | rfl | hgt
  · rw [List.getElem?_append_left hlt] at h
    exact Or.inl h
  · rw [List.getElem?_concat_length] at h
    exact Or.inr ⟨rfl, (Option.some.inj h).symm⟩
  · rw [List.getElem?_eq_none (by rw [List.length_append]; exact hgt)] at h
    cases h

section Systems

variable {T}
variable {s t u : System E.parser.State} {patterns : List Bytes} {past es : List Event} {i : Nat}

/-- A connection that has come out of a run of its own, in which `as` has happened to it. -/
def Alone (T : Scheme E) (tag : Bytes) (as : List Activity) (x : Session E.parser.State) : Prop :=
  ∃ junk evs, Mirrors as evs ∧
    runs (Session.step E T.transport) (T.started (.new tag junk E.parser.init)) evs = some x

/-- The invariant of a run that has taken the events `past`. -/
structure Apart (T : Scheme E) (tag : Bytes) (patterns : List Bytes) (past : List Event)
    (s : System E.parser.State) : Prop where
  registered : Registered (react E T.transport.async) patterns s.server
  next : ∃ junk, s.acceptor = .new E.parser tag junk
  unborn : ∀ i, s.connections.length ≤ i → activities i past = []
  unfaulted : s.stopped = none → ∀ (i : Nat) x, s.connections[i]? = some x → x.session.fault = none
  alone : s.stopped ≠ some .exception → ∀ (i : Nat) x, s.connections[i]? = some x →
    Alone T tag (activities i past) x.session

theorem apart_start (T : Scheme E) (tag : Bytes) (junk : Uninitialised)
    (regs : List (Bytes × UInt64)) :
    Apart T tag (regs.map Prod.fst) [] (System.start T tag junk regs) where
  registered := registered_registerAll _ regs
  next := ⟨junk, rfl⟩
  unborn _ _ := rfl
  unfaulted _ _ _ hx := by cases hx
  alone _ _ _ hx := by cases hx

/-- An accept concerns no connection that exists already. -/
theorem activities_accept (past : List Event) (n : Nat) (e : ErrorCode) (junk : Uninitialised)
    (j : Nat) : activities j (past ++ [.accept n e junk]) = activities j past := by
  rw [activities_concat]
  exact List.append_nil _

theorem getElem?_finish {ran : Ran E.parser.State} {p : Peer E.parser.State}
    (hp : s.connections[i]? = some (.alive p)) (j : Nat) :
    (s.finish i ran).connections[j]? =
      if i = j then some (Slot.settle ran.peer) else s.connections[j]? := by
  obtain ⟨hi, -⟩ := List.getElem?_eq_some_iff.mp hp
  change (s.connections.set i _)[j]? = _
  rw [List.getElem?_set]
  by_cases hij : i = j
  · subst hij
    rw [if_pos rfl, if_pos rfl, if_pos hi]
  · rw [if_neg hij, if_neg hij]

theorem Acted.registered {server : Server (Visit E.parser.State)} {p : Peer E.parser.State}
    {a : Activity} {ran : Ran E.parser.State}
    (hs : Registered (react E T.transport.async) patterns server) (ha : Acted T server p a ran) :
    Registered (react E T.transport.async) patterns ran.server := by
  cases ha with
  | read e bytes r hr hb =>
    cases hpres : T.presented e bytes { p.session with reads := p.session.reads - 1 } with
    | none =>
      rw [handleRead_of_not_presented T hpres]
      exact hs
    | some c =>
      rw [handleRead_of_presented T hs hpres r rfl]
      exact hs.bump _
  | complete ev s hev hss => exact hs
  | handler op s hh hss => exact hs
  | copy hh => exact hs
  | release hh => exact hs
  | shutdown hh => exact hs

/-- Nothing has crashed in a system that goes on. -/
theorem fault_of_running {ran : Ran E.parser.State} (h : ran.stop = none) :
    ran.peer.session.fault = none := by
  unfold Ran.stop at h
  cases hf : ran.peer.session.fault with
  | none => rfl
  | some f =>
    rw [hf] at h
    cases h

theorem apart_accepted {tag : Bytes} {ev : Event} (h : Apart T tag patterns past s)
    (hrun : s.stopped = none) (junk : Uninitialised)
    (hev : ev = .accept s.connections.length .success junk) :
    Apart T tag patterns (past ++ [ev]) { s with
      acceptor := { s.acceptor with
        newConnection := .new s.acceptor.requestIdHeader junk E.parser.init }
      connections := s.connections ++ [.alive ⟨T.started s.acceptor.newConnection, 0, 0⟩]
      contextCount := s.contextCount + 1 } := by
  subst hev
  obtain ⟨junk', hnext⟩ := h.next
  refine ⟨h.registered, ⟨junk, by rw [hnext]; rfl⟩, fun i hi => ?_, fun _ i x hx => ?_,
    fun hex i x hx => ?_⟩
  · rw [activities_accept]
    exact h.unborn i (Nat.le_of_succ_le (by simpa using hi))
  · rcases getElem?_concat_eq_some hx with hold | ⟨-, rfl⟩
    · exact h.unfaulted hrun i x hold
    · exact (T.starts _).1
  · rw [activities_accept]
    rcases getElem?_concat_eq_some hx with hold | ⟨rfl, rfl⟩
    · exact h.alone hex i x hold
    · refine ⟨junk', [], ?_, ?_⟩
      · rw [h.unborn _ (Nat.le_refl _)]
        exact .nil
      · rw [hnext]
        rfl

theorem apart_finish {tag : Bytes} {a : Activity} {p : Peer E.parser.State}
    {ran : Ran E.parser.State} (h : Apart T tag patterns past s) (hrun : s.stopped = none)
    (hp : s.connections[i]? = some (.alive p)) (ha : Acted T s.server p a ran) :
    Apart T tag patterns (past ++ [.connection i a]) (s.finish i ran) := by
  obtain ⟨hi, -⟩ := List.getElem?_eq_some_iff.mp hp
  refine ⟨ha.registered h.registered, h.next, fun j hj => ?_, fun hgo j x hx => ?_,
    fun hex j x hx => ?_⟩
  · have hlen : s.connections.length ≤ j := by
      change (s.connections.set i _).length ≤ j at hj
      rwa [List.length_set] at hj
    rw [activities_concat, h.unborn j hlen, activities_ne (Nat.ne_of_lt (Nat.lt_of_lt_of_le hi hlen))]
    rfl
  · rw [getElem?_finish hp] at hx
    split at hx
    · obtain rfl := Option.some.inj hx
      rw [Slot.session_settle]
      exact fault_of_running hgo
    · exact h.unfaulted hrun j x hx
  · rw [getElem?_finish hp] at hx
    have hrunning : s.stopped ≠ some .exception := by
      intro hstop
      rw [hrun] at hstop
      cases hstop
    rw [activities_concat]
    split at hx
    · rename_i hij
      subst hij
      obtain rfl := Option.some.inj hx
      obtain ⟨junk, evs, hm, hevs⟩ := h.alone hrunning i _ hp
      obtain ⟨evs', hm', hevs'⟩ :=
        ha.mirrored h.registered (h.unfaulted hrun i _ hp) hex hm
      rw [activities_self, Slot.session_settle]
      exact ⟨junk, evs ++ evs', hm', runs_append_iff.mpr ⟨_, hevs, hevs'⟩⟩
    · rename_i hij
      rw [activities_ne hij, List.append_nil]
      exact h.alone hrunning j x hx

theorem apart_step {tag : Bytes} {ev : Event} (h : Apart T tag patterns past s)
    (hs : System.step T s ev = some t) : Apart T tag patterns (past ++ [ev]) t := by
  obtain ⟨hrun, hstep⟩ := System.stepped_of_step T hs
  cases hstep with
  | accepted junk ha => exact apart_accepted h hrun junk rfl
  | deaf e junk he ha =>
    refine ⟨h.registered, h.next, fun j hj => ?_, h.unfaulted, fun hex j x hx => ?_⟩
    · rw [activities_accept]
      exact h.unborn j hj
    · rw [activities_accept]
      exact h.alone hex j x hx
  | connection i a p ran hp ha => exact apart_finish h hrun hp ha

/-- The law of a run. -/
theorem apart_runs (T : Scheme E) (tag : Bytes) (junk : Uninitialised)
    (regs : List (Bytes × UInt64)) (h : runs (System.step T) (System.start T tag junk regs) es =
      some u) : Apart T tag (regs.map Prod.fst) es u :=
  history (I := fun past s => Apart T tag (regs.map Prod.fst) past s) (D := fun _ _ => True)
    (fun _ _ _ _ h _ hs => apart_step h hs) (apart_start T tag junk regs)
    (along_of_forall (fun _ _ => trivial) _ _) h

/-- Whatever happens to the other connections, and in whichever order: as long as no exception has
ended the program, each connection is what a run of its own makes of what has happened to it. -/
theorem connections_run_alone (T : Scheme E) (tag : Bytes) (junk : Uninitialised)
    (regs : List (Bytes × UInt64)) (h : runs (System.step T) (System.start T tag junk regs) es =
      some u) (hx : u.stopped ≠ some .exception) (x : Slot E.parser.State)
    (hi : u.connections[i]? = some x) :
    ∃ junk' evs, Mirrors (activities i es) evs ∧
      runs (Session.step E T.transport) (T.started (.new tag junk' E.parser.init)) evs =
        some x.session :=
  (apart_runs T tag junk regs h).alone hx i x hi

end Systems

/-- Two clients send the same request. The handler answers the second at once, and keeps the
connection of the first. -/
def twoGets : List Event :=
  [.accept 0 .success .zero, .accept 1 .success .zero,
    .connection 1 (.read .success (getBytes (ascii "/"))
      ⟨[.create .ok Reply.textHtml 0], 0, false⟩),
    .connection 0 (.read .success (getBytes (ascii "/")) ⟨[.waitForAsyncReply], 1, false⟩),
    .connection 1 (.complete (.write 0 .success))]

theorem connections_run_alone_twoGets : ∃ u x,
    runs (System.step (http getServer)) (System.start (http getServer) [] .zero [(ascii "/", 0)])
      twoGets = some u ∧ u.connections[1]? = some x ∧
        ∃ junk' evs, Mirrors (activities 1 twoGets) evs ∧
          runs (Session.step getServer (http getServer).transport)
            ((http getServer).started (.new [] junk' getServer.parser.init)) evs =
              some x.session := by
  have hrun : ∃ u, runs (System.step (http getServer))
      (System.start (http getServer) [] .zero [(ascii "/", 0)]) twoGets = some u ∧
        u.stopped = none ∧ ∃ x, u.connections[1]? = some x := ⟨_, rfl, rfl, _, rfl⟩
  obtain ⟨u, hu, hrunning, x, hx⟩ := hrun
  have hex : u.stopped ≠ some .exception := by
    intro hstop
    rw [hrunning] at hstop
    cases hstop
  exact ⟨u, x, hu, hx,
    connections_run_alone (http getServer) [] .zero [(ascii "/", 0)] hu hex x hx⟩

end CsiHttp.Service

import Mathlib.Data.UInt
import CsiHttp.Server.HttpExchange
import CsiHttp.Service.Components

/-!
# Where the requests of a system go

All connections share the handlers and their counters. A counter has been raised once for each
request that some connection has passed on and whose url its pattern is the first to accept,
however the connections take turns. A url without a pattern is answered with a 404 at once.
-/
namespace CsiHttp.Service

open Lib Lib.Text Lib.Runs Server

/-! ## Requests in a log -/

def dispatchedRequest : Obs → Option Request
  | .dispatched r => some r
  | _ => none

/-- What a connection has passed to `server::handle_request`. -/
def requests (log : List Obs) : List Request := log.filterMap dispatchedRequest

theorem requests_append (l l' : List Obs) : requests (l ++ l') = requests l ++ requests l' :=
  List.filterMap_append

theorem requests_quiet {l : List Obs} (h : ∀ o ∈ l, o.Quiet) : requests l = [] := by
  apply List.filterMap_eq_nil_iff.mpr
  intro o ho
  have hq := h o ho
  cases o with
  | dispatched r => exact absurd hq id
  | callback _ | parsed _ _ | requestIdLogged _ | methodLogged _ | deferred | notified _
  | replying _ | replied _ _ | readStarted | timedOut _ => rfl

theorem requests_callbacks (cbs : List Callback) : requests (cbs.map Obs.callback) = [] := by
  apply List.filterMap_eq_nil_iff.mpr
  rw [List.forall_mem_map]
  exact fun _ _ => rfl

section Sessions

variable {State : Type} {s t u : Session State}

/-- No request has been passed on between the two states. -/
def Silent (s t : Session State) : Prop := ∃ l, t.log = s.log ++ l ∧ requests l = []

theorem Silent.trans (h : Silent s t) (h' : Silent t u) : Silent s u := by
  obtain ⟨l, hl, hr⟩ := h
  obtain ⟨l', hl', hr'⟩ := h'
  refine ⟨l ++ l', by rw [hl', hl, List.append_assoc], ?_⟩
  rw [requests_append, hr, hr', List.append_nil]

theorem Silent.requests (h : Silent s t) : requests t.log = requests s.log := by
  obtain ⟨l, hl, hr⟩ := h
  rw [hl, requests_append, hr, List.append_nil]

theorem Silent.of_same (h : t.log = s.log) : Silent s t := ⟨[], by rw [h, List.append_nil], rfl⟩

theorem silent_of_quiet (h : Session.Quiet s t) : Silent s t := by
  obtain ⟨l, hl, hq⟩ := h.log
  exact ⟨l, hl, requests_quiet hq⟩

end Sessions

section Reads

variable {E : Externals} {prepare : Session E.parser.State → Session E.parser.State}
variable {bytes : Bytes} {s c : Session E.parser.State}

theorem silent_parse (s : Session E.parser.State) (bytes : Bytes) : Silent s (s.parse E bytes) :=
  ⟨_, rfl, requests_callbacks _⟩

theorem silent_parsed (s : Session E.parser.State) (bytes : Bytes) (n : Nat) :
    Silent s ((s.parse E bytes).note (.parsed bytes.length n)) :=
  (silent_parse s bytes).trans ⟨_, rfl, rfl⟩

/-- A connection is passed on with its request, which has just been logged. -/
theorem presented_log (hp : ∀ s, Session.Quiet s (prepare s))
    (h : s.presented E prepare bytes = some c) :
    ∃ s', Silent s s' ∧ c.log = s'.log ++ [.dispatched c.conn.request] := by
  unfold Session.presented at h
  cases hres : (s.conn.httpParse E.parser bytes).result with
  | error f =>
    rw [hres] at h
    cases h
  | ok n =>
    rw [hres] at h
    obtain ⟨-, h⟩ := Option.ite_none_right_eq_some.mp h
    obtain rfl := Option.some.inj h
    have hquiet := (hp ((s.parse E bytes).note (.parsed bytes.length n))).trans
      (Session.quiet_logRequest E _)
    exact ⟨_, (silent_parsed s bytes n).trans (silent_of_quiet hquiet), rfl⟩

/-- A read that passes nothing on. -/
theorem silent_not_presented {A : AsyncReply E.parser.State}
    (h : s.presented E prepare bytes = none) (ops : List HandlerOp) :
    Silent s (s.readSucceeded E A prepare bytes ops) := by
  unfold Session.presented at h
  unfold Session.readSucceeded
  cases hres : (s.conn.httpParse E.parser bytes).result with
  | error f => exact (silent_parse s bytes).trans (.of_same rfl)
  | ok n =>
    rw [hres] at h
    dsimp only at h ⊢
    by_cases hn : n = bytes.length
    · rw [if_neg (not_not.mpr hn)]
      have hc : ¬ ((s.parse E bytes).note (.parsed bytes.length n)).conn.requestComplete = true := by
        intro hc
        rw [if_pos ⟨hn, hc⟩] at h
        cases h
      rw [if_neg hc]
      exact (silent_parsed s bytes n).trans (silent_of_quiet (Session.calm_readMore _).quiet)
    · rw [if_pos hn]
      exact (silent_parsed s bytes n).trans (silent_of_quiet (Session.quiet_badRequest E _))

end Reads

variable {E : Externals} {T : Scheme E}

theorem quiet_resume (s : Session E.parser.State) : Session.Quiet s (s.resume E) := by
  refine Session.quiet_andThen (.refl s) (fun s => ?_)
  split
  · exact Session.quiet_arm s _ _
  · exact Session.quiet_sendReply E s

theorem quiet_answered (c : Session E.parser.State) (r : Reaction) :
    Session.Quiet c (answered T c r) := by
  have hops := Session.quiet_handlerOps (E := E) T.lawful.async c r.ops
  unfold answered
  split
  · exact hops
  · exact hops.trans (quiet_resume _)

/-- No step but a successful read passes a request on. -/
theorem silent_step {s t : Session E.parser.State} {ev : Server.Event}
    (h : s.step E T.transport ev = some t) (hev : ∀ bytes ops, ev ≠ .read .success bytes ops) :
    Silent s t := by
  obtain ⟨-, hout⟩ := step_outcome T.lawful h
  cases hout with
  | read bytes ops s' hread hb hs ht => exact absurd hread (hev bytes ops)
  | calm hev ht => exact silent_of_quiet ht.quiet
  | quiet hev ht htouched => exact silent_of_quiet ht

/-- What an activity passes on: nothing, or the request with which `handle_read` calls the server. -/
inductive Passes (T : Scheme E) (server : Server (Visit E.parser.State)) (p : Peer E.parser.State)
    (a : Activity) (ran : Ran E.parser.State) : Prop where
  | silent (hs : ran.server = server) (h : Silent p.session ran.peer.session)
  | passed (e : ErrorCode) (bytes : Bytes) (r : Reaction) (c s' : Session E.parser.State)
      (ha : a = .read e bytes r)
      (hc : T.presented e bytes { p.session with reads := p.session.reads - 1 } = some c)
      (hr : 0 < p.session.reads) (hs' : Silent p.session s')
      (hlog : c.log = s'.log ++ [.dispatched c.conn.request])
      (hran : ran = handleRead T server e bytes r
        { p with session := { p.session with reads := p.session.reads - 1 } })

theorem Acted.passes {server : Server (Visit E.parser.State)} {p : Peer E.parser.State}
    {a : Activity} {ran : Ran E.parser.State} (ha : Acted T server p a ran) :
    Passes T server p a ran := by
  cases ha with
  | complete ev s hev hs =>
    refine .silent rfl (silent_step hs fun bytes ops he => ?_)
    subst he
    cases hev
  | handler op s hh hs => exact .silent rfl (silent_step hs fun _ _ => Server.Event.noConfusion)
  | copy hh => exact .silent rfl (.of_same rfl)
  | release hh => exact .silent rfl (.of_same rfl)
  | shutdown hh => exact .silent rfl (.of_same rfl)
  | read e bytes r hr hb =>
    have hdec : Silent p.session { p.session with reads := p.session.reads - 1 } := .of_same rfl
    cases hpres : T.presented e bytes { p.session with reads := p.session.reads - 1 } with
    | none =>
      rw [handleRead_of_not_presented T hpres]
      refine .silent rfl (hdec.trans ?_)
      by_cases he : e = .success
      · subst he
        have henter := silent_of_quiet (T.enters { p.session with reads := p.session.reads - 1 }).quiet
        dsimp only
        rw [T.reads]
        exact henter.trans (silent_not_presented hpres _)
      · have hfailed := T.lawful.readFailed e bytes []
          ({ p.session with reads := p.session.reads - 1 } : Session E.parser.State) he
        have hsilent := silent_of_quiet hfailed.quiet
        exact hsilent
    | some c =>
      cases e with
      | operationAborted => cases hpres
      | failure => cases hpres
      | success =>
        have henter := silent_of_quiet (T.enters { p.session with reads := p.session.reads - 1 }).quiet
        obtain ⟨s', hs', hlog⟩ := presented_log T.prepares hpres
        exact .passed .success bytes r c s' rfl hpres hr (hdec.trans (henter.trans hs')) hlog rfl

/-! ## Counting -/

/-- How many of the requests in a log go to a pattern that accepts the segments of `q`. -/
def hits (patterns : List UriPattern) (q : Bytes) (log : List Obs) : Nat :=
  (requests log).countP (fun r =>
    (Server.target patterns r.url).any (fun p => p.accepts (split q)))

/-- What the memory of the counters for `q` held. -/
def initial (q : Bytes) (regs : List (Bytes × UInt64)) : UInt64 :=
  ((regs.filter (fun r => (UriPattern.new r.1).accepts (split q))).map Prod.snd).sum

theorem counted_registerAll {State : Type} (h : Handler (Visit State)) (q : Bytes)
    (regs : List (Bytes × UInt64)) :
    Server.counted (split q) (System.registerAll h regs).handlers = initial q regs := by
  have hall : ∀ server : Server (Visit State), Server.counted (split q)
      (regs.foldl (fun s r => s.addHandler r.1 h r.2) server).handlers =
        Server.counted (split q) server.handlers + initial q regs := by
    induction regs with
    | nil => exact fun server => (UInt64.add_zero _).symm
    | cons r regs ih =>
      intro server
      rw [List.foldl_cons, ih, Server.addHandler, Server.counted_append, UInt64.add_assoc]
      congr 1
      rw [Server.counted, Server.counted, UInt64.add_zero, initial, initial, List.filter_cons]
      change (if (UriPattern.new r.1).accepts (split q) = true then r.2 else 0) + _ = _
      by_cases hr : (UriPattern.new r.1).accepts (split q) = true
      · rw [if_pos hr, if_pos hr, List.map_cons, List.sum_cons]
      · rw [if_neg hr, if_neg hr, UInt64.zero_add]
  rw [System.registerAll, hall]
  exact UInt64.zero_add _

theorem hits_concat (patterns : List UriPattern) (q : Bytes) {log log' : List Obs} {r : Request}
    (h : requests log' = requests log ++ [r]) : hits patterns q log' = hits patterns q log +
      (Server.target patterns r.url).toList.countP (fun p => p.accepts (split q)) := by
  unfold hits
  rw [h, List.countP_append, List.countP_singleton]
  cases Server.target patterns r.url with
  | none => rfl
  | some p => rw [Option.any_some, Option.toList_some, List.countP_singleton]

/-- The requests that an activity passes on are those that it counts. -/
theorem Acted.counted {patterns : List Bytes} {server : Server (Visit E.parser.State)}
    {p : Peer E.parser.State} {a : Activity} {ran : Ran E.parser.State}
    (hreg : Registered (react E T.transport.async) patterns server)
    (ha : Acted T server p a ran) (q : Bytes) :
    Server.patterns ran.server.handlers = Server.patterns server.handlers ∧
      ∃ d, hits (Server.patterns server.handlers) q ran.peer.session.log =
          hits (Server.patterns server.handlers) q p.session.log + d ∧
        Server.counted (split q) ran.server.handlers =
          Server.counted (split q) server.handlers + UInt64.ofNat d := by
  cases ha.passes with
  | silent hserver hsilent =>
    rw [hserver]
    refine ⟨rfl, 0, ?_, (UInt64.add_zero _).symm⟩
    unfold hits
    rw [hsilent.requests, Nat.add_zero]
  | passed e bytes r c s' hev hpres hr hs' hlog hran =>
    subst hran
    have hserver : (handleRead T server e bytes r
        { p with session := { p.session with reads := p.session.reads - 1 } }).server =
          (server.handleRequest ⟨c, r, 0⟩).1 := by
      unfold handleRead
      rw [hpres]
      dsimp only
      cases (server.handleRequest ⟨c, r, 0⟩).2 <;> rfl
    have hrequests : requests (handleRead T server e bytes r
        { p with session := { p.session with reads := p.session.reads - 1 } }).peer.session.log =
          requests p.session.log ++ [c.conn.request] := by
      have hc : requests c.log = requests p.session.log ++ [c.conn.request] := by
        rw [hlog, requests_append, hs'.requests]
        rfl
      rw [handleRead_of_presented T hreg hpres r rfl]
      exact (silent_of_quiet (quiet_answered c _)).requests.trans hc
    obtain ⟨hpatterns, hcounted⟩ := Server.handleRequest_counted server ⟨c, r, 0⟩ (split q)
    rw [hserver]
    exact ⟨hpatterns, _, hits_concat _ q hrequests, hcounted⟩

/-- All requests that go to a pattern that accepts the segments of `q`. -/
def totalHits {State : Type} (patterns : List UriPattern) (q : Bytes) (s : System State) : Nat :=
  (s.connections.map (fun x => hits patterns q x.session.log)).sum

theorem sum_set {α : Type} (f : α → Nat) {l : List α} {i : Nat} {x y : α} {a b : Nat}
    (hx : l[i]? = some x) (hy : f y + a = f x + b) :
    ((l.set i y).map f).sum + a = (l.map f).sum + b := by
  induction l generalizing i with
  | nil => cases hx
  | cons z l ih =>
    cases i with
    | zero =>
      obtain rfl := Option.some.inj hx
      rw [List.set_cons_zero, List.map_cons, List.map_cons, List.sum_cons, List.sum_cons]
      omega
    | succ i =>
      have hrest := ih hx
      rw [List.set_cons_succ, List.map_cons, List.map_cons, List.sum_cons, List.sum_cons]
      omega

/-- What a run keeps: the counters hold what their memory held and the requests passed on. -/
structure Counts (T : Scheme E) (regs : List (Bytes × UInt64)) (q : Bytes)
    (s : System E.parser.State) : Prop where
  registered : Registered (react E T.transport.async) (regs.map Prod.fst) s.server
  counted : Server.counted (split q) s.server.handlers =
    initial q regs + UInt64.ofNat (totalHits (regs.map (fun r => .new r.1)) q s)

theorem Registered.patterns {State : Type} {h : Handler (Visit State)}
    {regs : List (Bytes × UInt64)} {server : Server (Visit State)}
    (hs : Registered h (regs.map Prod.fst) server) :
    Server.patterns server.handlers = regs.map (fun r => .new r.1) := by
  have hfst := congrArg (List.map Prod.fst) hs
  simp only [List.map_map] at hfst
  exact hfst

theorem counts_step {regs : List (Bytes × UInt64)} {q : Bytes} {s t : System E.parser.State}
    {ev : Event} (h : Counts T regs q s) (hs : System.step T s ev = some t) : Counts T regs q t := by
  obtain ⟨-, hstep⟩ := System.stepped_of_step T hs
  cases hstep with
  | deaf e junk he ha => exact ⟨h.registered, h.counted⟩
  | accepted junk ha =>
    refine ⟨h.registered, h.counted.trans ?_⟩
    have hnone : hits (regs.map (fun r => UriPattern.new r.1)) q
        (T.started s.acceptor.newConnection).log = 0 := by
      unfold hits
      rw [requests_quiet (T.starts _).2]
      rfl
    unfold totalHits
    rw [List.map_append, List.sum_append]
    change _ = _ + UInt64.ofNat (_ + (hits _ q (T.started s.acceptor.newConnection).log + 0))
    rw [hnone]
    rfl
  | connection i a p ran hp ha =>
    obtain ⟨-, d, hhits, hcounted⟩ := ha.counted h.registered q
    rw [h.registered.patterns] at hhits
    refine ⟨ha.registered h.registered, ?_⟩
    have htotal : totalHits (regs.map (fun r => .new r.1)) q (s.finish i ran) =
        totalHits (regs.map (fun r => .new r.1)) q s + d :=
      sum_set (a := 0) _ hp (by rw [Slot.session_settle]; exact hhits)
    rw [htotal, UInt64.ofNat_add, ← UInt64.add_assoc, ← h.counted]
    exact hcounted

/-- Over all connections and in every order of their steps, a request is counted once, by the first
pattern that accepts its url: the sum for `q` is what the memory of the counters held, and one
for each request passed on whose pattern accepts the segments of `q`. -/
theorem noOfRequests_system (T : Scheme E) (tag : Bytes) (junk : Uninitialised)
    (regs : List (Bytes × UInt64)) {es : List Event} {u : System E.parser.State}
    (h : runs (System.step T) (System.start T tag junk regs) es = some u) (q : Bytes) :
    u.server.getNoOfRequests q = initial q regs +
      UInt64.ofNat (u.connections.map (fun x => hits (regs.map (fun r => .new r.1)) q
        x.session.log)).sum := by
  have hstart : Counts T regs q (System.start T tag junk regs) :=
    ⟨registered_registerAll _ regs, (counted_registerAll _ q regs).trans (UInt64.add_zero _).symm⟩
  have hcounts : Counts T regs q u :=
    invariant (D := fun _ _ => True) (fun _ _ _ h _ hs => counts_step h hs) hstart
      (along_of_forall (fun _ _ => trivial) _ _) h
  rw [Server.getNoOfRequests_eq]
  exact hcounts.counted

theorem noOfRequests_system_twoGets : ∃ u,
    runs (System.step (http getServer)) (System.start (http getServer) [] .zero
      [(ascii "/a", 5), (ascii "/", 0)]) twoGets = some u ∧
        u.server.getNoOfRequests (ascii "/") = initial (ascii "/") [(ascii "/a", 5), (ascii "/", 0)] +
          UInt64.ofNat (u.connections.map (fun x =>
            hits ([(ascii "/a", 5), (ascii "/", 0)].map (fun r : Bytes × UInt64 => .new r.1))
              (ascii "/") x.session.log)).sum := by
  have hrun : ∃ u, runs (System.step (http getServer)) (System.start (http getServer) [] .zero
      [(ascii "/a", 5), (ascii "/", 0)]) twoGets = some u := ⟨_, rfl⟩
  obtain ⟨u, hu⟩ := hrun
  exact ⟨u, hu, noOfRequests_system (http getServer) [] .zero _ hu (ascii "/")⟩

end CsiHttp.Service

import CsiHttp.Server.Frame
import CsiHttp.Server.HttpServer
import CsiHttp.Server.Routing
import CsiHttp.Server.Winding

/-!
# The whole server

One `http_server` or `https_server` with all its connections, on the single thread of the
`io_service`. The connections share the acceptor, the handlers and the number of connection
objects; everything else belongs to one connection. A connection object exists as long as a
`shared_ptr` to it does: every operation it has started holds one, and handlers may keep some.
-/
namespace CsiHttp.Server.Session

open Lib Lib.Text

variable (E : Externals)

/-- `handle_read` after a success up to its call of `server::handle_request`, with the connection
as it is then; `none` when there is no such call. -/
def presented (prepare : Session E.parser.State → Session E.parser.State) (bytes : Bytes)
    (s : Session E.parser.State) : Option (Session E.parser.State) :=
  match (s.conn.httpParse E.parser bytes).result with
  | .error _ => none
  | .ok nparsed =>
    let s := (s.parse E bytes).note (.parsed bytes.length nparsed)
    if nparsed = bytes.length ∧ s.conn.requestComplete then
      let s := (prepare s).logRequest E
      some (({ s with lent := true } : Session E.parser.State).note (.dispatched s.conn.request))
    else none

/-- What `handle_read` does after that call. -/
def resume {State : Type} (s : Session State) : Session State :=
  s.andThen (fun s =>
    if s.conn.waitingForAsyncReply then s.arm 3605000 .handleTimer else s.sendReply E)

end CsiHttp.Server.Session

namespace CsiHttp.Service

open Lib Lib.Text Server

/-! ## Handlers -/

/-- What a handler does when it is called: its actions, the copies of the `shared_ptr` that are
left when it ends, and whether it ends with an exception. -/
structure Reaction where
  ops : List HandlerOp
  keeps : Nat
  throws : Bool
  deriving DecidableEq

/-- A connection on its way through `server::handle_request`. -/
structure Visit (State : Type) where
  session : Session State
  reaction : Reaction
  kept : Nat

instance (State : Type) : ConnectionType (Visit State) where
  url v := v.session.conn.request.url
  createNotFound v :=
    { v with session := v.session.takeReply (v.session.conn.reply.create .notFound Reply.textHtml 0) }

/-- Any handler: what it does is chosen by the environment. -/
def react {State : Type} (E : Externals) (A : AsyncReply State) : Handler (Visit State) := fun _ v =>
  let v := { v with session := v.session.handlerOps E A v.reaction.ops, kept := v.reaction.keeps }
  if v.reaction.throws then .threw v else .returned v

/-- `http` or `https`: a transport, and how its connections start and read. -/
structure Scheme (E : Externals) where
  transport : Transport E.parser.State
  started : Connection E.parser.State → Session E.parser.State
  /-- What `handle_read` does before it parses. -/
  enter : Session E.parser.State → Session E.parser.State
  /-- What it does with a complete request before it is logged. -/
  prepare : Session E.parser.State → Session E.parser.State
  /-- The calls of `async_shutdown` in a handler of the timer. -/
  shutdowns : ErrorCode → Nat
  reads : ∀ bytes ops s, transport.handleRead .success bytes ops s =
    (enter s).readSucceeded E transport.async prepare bytes ops
  /-- A read that has failed reaches no handler. -/
  fails : ∀ e bytes ops s, e ≠ .success →
    transport.handleRead e bytes ops s = transport.handleRead e bytes [] s
  starts : ∀ c, (started c).fault = none ∧ ∀ o ∈ (started c).log, o.Quiet
  enters : ∀ s, Session.Calm s (enter s)
  prepares : ∀ s, Session.Quiet s (prepare s)
  lawful : transport.Lawful
  /-- A connection that is started starts something. -/
  opens : ∀ c, 0 < (started c).reads + (started c).handshakes
  winds : transport.Winds shutdowns

/-- `http_server` and `http_connection`. -/
def http (E : Externals) : Scheme E where
  transport := HttpConnection.transport E
  started := HttpConnection.started
  enter := Session.cancelTimer
  prepare := id
  shutdowns _ := 0
  reads _ _ _ := rfl
  fails e _ _ _ he := by
    cases e with
    | success => exact absurd rfl he
    | operationAborted | failure => rfl
  starts _ := ⟨rfl, List.forall_mem_singleton.mpr trivial⟩
  enters := Session.calm_cancelTimer
  prepares := Session.Quiet.refl
  lawful := HttpConnection.lawful E
  opens _ := Nat.zero_lt_one
  winds := HttpConnection.winds E

/-- `https_server` and `https_connection`. -/
def https (E : Externals) : Scheme E where
  transport := HttpsConnection.transport E
  started := HttpsConnection.started
  enter := id
  prepare s := s.requestUuid E Request.defaultIdHeader
  shutdowns e := if e = .success then 1 else 0
  reads _ _ _ := rfl
  fails e _ _ _ he := by
    cases e with
    | success => exact absurd rfl he
    | operationAborted | failure => rfl
  starts _ := ⟨rfl, List.forall_mem_nil _⟩
  enters := Session.Calm.refl
  prepares s := Session.quiet_requestUuid E s _
  lawful := HttpsConnection.lawful E
  opens _ := Nat.zero_lt_one
  winds := HttpsConnection.winds E

/-! ## Connection objects -/

/-- A connection object. `handles` are the copies of the `shared_ptr` that handlers have kept,
`shutdowns` the calls of `async_shutdown` that have not completed. -/
structure Peer (State : Type) where
  session : Session State
  handles : Nat
  shutdowns : Nat

/-- The copies of the `shared_ptr` to the connection. -/
def Peer.owners {State : Type} (p : Peer State) : Nat :=
  p.session.reads + p.session.writes.length + p.session.posted + p.session.handshakes +
    p.session.timer.pending.length + p.session.timer.queued.length + p.handles + p.shutdowns

/-- A connection that has been accepted. Of one that has been destroyed only its last state is
remembered. -/
inductive Slot (State : Type) where
  | alive (p : Peer State)
  | destroyed (last : Session State)

namespace Slot

variable {State : Type}

def session : Slot State → Session State
  | .alive p => p.session
  | .destroyed last => last

def isAlive : Slot State → Bool
  | .alive _ => true
  | .destroyed _ => false

/-- The last `shared_ptr` destroys its connection. -/
def settle (p : Peer State) : Slot State := if p.owners = 0 then .destroyed p.session else .alive p

end Slot

/-- What happens to one connection. A read comes with what the handler of the request does, if
one is called. -/
inductive Activity where
  | read (e : ErrorCode) (bytes : Bytes) (r : Reaction)
  /-- Any other completion. -/
  | complete (ev : Server.Event)
  /-- A handler that has kept a `shared_ptr` uses the connection, -/
  | handler (op : HandlerOp)
  /-- copies it, -/
  | copy
  /-- or gives it up. -/
  | release
  /-- `handle_shutdown` is called. -/
  | shutdown
  deriving DecidableEq

/-- The server and the connection after an activity; `threw` says that an exception is on its
way out of `io_service::run`. -/
structure Ran (State : Type) where
  server : Server (Visit State)
  peer : Peer State
  threw : Bool

section Activities

variable {E : Externals} (T : Scheme E)

/-- The connection as `handle_read` passes it to `server::handle_request`, if it does. -/
def Scheme.presented (e : ErrorCode) (bytes : Bytes) (s : Session E.parser.State) :
    Option (Session E.parser.State) :=
  match e with
  | .success => (T.enter s).presented E T.prepare bytes
  | .operationAborted | .failure => none

/-- `handle_read` with the handlers of the server. -/
def handleRead (server : Server (Visit E.parser.State)) (e : ErrorCode) (bytes : Bytes)
    (r : Reaction) (p : Peer E.parser.State) : Ran E.parser.State :=
  match T.presented e bytes p.session with
  | none => ⟨server, { p with session := T.transport.handleRead e bytes [] p.session }, false⟩
  | some c =>
    let answer := server.handleRequest ⟨c, r, 0⟩
    match answer.2 with
    | .returned v =>
      ⟨answer.1, { p with session := v.session.resume E, handles := p.handles + v.kept }, false⟩
    | .threw v => ⟨answer.1, { p with session := v.session, handles := p.handles + v.kept }, true⟩

/-- The completions that `Activity.complete` stands for. -/
def isCompletion : Server.Event → Bool
  | .read _ _ _ | .handler _ => false
  | .handshake _ | .write _ _ | .expire | .timer _ | .asyncReplyDone => true

/-- The calls of `async_shutdown` that a completion makes. -/
def startedShutdowns (s : Session E.parser.State) : Server.Event → Nat
  | .timer i => match s.timer.dequeue i with
    | some (c, _) => T.shutdowns c.code
    | none => 0
  | _ => 0

/-- One activity of a connection. -/
def Activity.run (server : Server (Visit E.parser.State)) (p : Peer E.parser.State) :
    Activity → Option (Ran E.parser.State)
  | .read e bytes r =>
    if 0 < p.session.reads ∧ fillsBuffer e bytes then
      some (handleRead T server e bytes r
        { p with session := { p.session with reads := p.session.reads - 1 } })
    else none
  | .complete ev =>
    if isCompletion ev then
      (p.session.step E T.transport ev).map (fun s =>
        ⟨server, ⟨s, p.handles, p.shutdowns + startedShutdowns T p.session ev⟩, false⟩)
    else none
  | .handler op =>
    if 0 < p.handles then
      (p.session.step E T.transport (.handler op)).map (fun s =>
        ⟨server, { p with session := s }, false⟩)
    else none
  | .copy => if 0 < p.handles then some ⟨server, { p with handles := p.handles + 1 }, false⟩ else none
  | .release =>
    if 0 < p.handles then some ⟨server, { p with handles := p.handles - 1 }, false⟩ else none
  | .shutdown =>
    if 0 < p.shutdowns then some ⟨server, { p with shutdowns := p.shutdowns - 1 }, false⟩ else none

end Activities

/-! ## Steps -/

/-- What ends the program. -/
inductive Stop where
  | crash (f : Fault)
  | exception
  deriving DecidableEq

/-- The server with its acceptor and its connections in the order in which they were accepted;
`contextCount` is the static member `connection::s_context_count`. -/
structure System (State : Type) where
  server : Server (Visit State)
  acceptor : HttpServer State
  accepting : Bool
  connections : List (Slot State)
  contextCount : UInt64
  stopped : Option Stop

/-- `accept n` completes the pending accept; the next connection is number `n`. -/
inductive Event where
  | accept (n : Nat) (e : ErrorCode) (junk : Uninitialised)
  | connection (i : Nat) (a : Activity)

/-- Why the program ends with an activity, if it does. -/
def Ran.stop {State : Type} (r : Ran State) : Option Stop :=
  match r.peer.session.fault with
  | some f => some (.crash f)
  | none => if r.threw then some .exception else none

namespace System

variable {E : Externals} (T : Scheme E)

/-- The handlers of the server, each with what the memory of its counter held. -/
def registerAll {State : Type} (h : Handler (Visit State)) (regs : List (Bytes × UInt64)) :
    Server (Visit State) :=
  regs.foldl (fun s r => s.addHandler r.1 h r.2) .new

/-- A server that has been constructed and to which the handlers of `regs` have been added. -/
def start (tag : Bytes) (junk : Uninitialised) (regs : List (Bytes × UInt64)) :
    System E.parser.State where
  server := registerAll (react E T.transport.async) regs
  acceptor := .new E.parser tag junk
  accepting := true
  connections := []
  contextCount := 1
  stopped := none

/-- `handle_accept`. -/
def handleAccept (s : System E.parser.State) (e : ErrorCode) (junk : Uninitialised) :
    System E.parser.State :=
  let a := s.acceptor.handleAccept E.parser T.started e junk
  match a.2 with
  | some x =>
    { s with
      acceptor := a.1
      connections := s.connections ++ [.alive ⟨x, 0, 0⟩]
      contextCount := s.contextCount + 1 }
  | none => { s with acceptor := a.1, accepting := false }

/-- The system after connection `i` has run an activity. -/
def finish {State : Type} (s : System State) (i : Nat) (r : Ran State) : System State :=
  { s with
    server := r.server
    connections := s.connections.set i (.settle r.peer)
    contextCount := if r.peer.owners = 0 then s.contextCount - 1 else s.contextCount
    stopped := r.stop }

/-- The connection object number `i`, if it exists. -/
def peer {State : Type} (s : System State) (i : Nat) : Option (Peer State) :=
  s.connections[i]?.bind (fun x => match x with
    | .alive p => some p
    | .destroyed _ => none)

def step (s : System E.parser.State) (ev : Event) : Option (System E.parser.State) :=
  if s.stopped.isSome then none
  else match ev with
  | .accept n e junk =>
    if s.accepting ∧ n = s.connections.length then some (handleAccept T s e junk) else none
  | .connection i a => (s.peer i).bind (fun p => (a.run T s.server p).map (s.finish i))

end System

end CsiHttp.Service

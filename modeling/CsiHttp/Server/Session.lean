import CsiHttp.Lib.DeadlineTimer
import CsiHttp.Server.Connection

/-!
# A connection between the completions of its asynchronous operations

What `http_connection` and `https_connection` have in common: the operations they have
started, the actions their handlers are made of, and the step from one completion to
the next on the single thread of the `io_service`. A started operation is only counted;
when and with which result it completes is chosen by the environment.

Next to the state a log records what is observable of a run. A fault ends the run.
-/
namespace CsiHttp.Server

open Lib Lib.Text

/-- Code outside the repository that a connection calls. -/
structure Externals where
  parser : HttpParser
  uuids : Uuids

/-- The completion handlers of the connection timer. -/
inductive Waiter where
  | handleTimer
  | handleAsyncCall
  deriving DecidableEq, Repr

/-- An `async_write` on its way: the reply as it was then, and the buffers that refer to it. -/
structure Write where
  reply : Reply
  buffers : List Bytes
  deriving DecidableEq

inductive Obs where
  | callback (cb : Callback)
  | parsed (received nparsed : Nat)
  /-- `request().request_id()` went to the log. -/
  | requestIdLogged (id : Bytes)
  /-- `to_string(request().method())` went to the log. -/
  | methodLogged (method : Option Nat)
  /-- `server::handle_request` is called. -/
  | dispatched (request : Request)
  /-- `wait_for_async_reply` is called. -/
  | deferred
  /-- `notify_async_reply_done` is called. -/
  | notified (reply : Reply)
  /-- `send_reply` is called. -/
  | replying (reply : Reply)
  /-- `send_reply` has started its write. -/
  | replied (reply : Reply) (buffers : List Bytes)
  | readStarted
  /-- The deadline of a wait has ended the connection. -/
  | timedOut (wait : Wait Waiter)
  deriving DecidableEq

/-- What a handler does with the connection it has been given. -/
inductive HandlerOp where
  | writeContent (bytes : Bytes)
  | create (status : StatusType) (contentType : Bytes) (extraHeaders : Nat)
  | addHeader (h : Header)
  | resetReply
  | requestId (idHeader : Bytes)
  | requestUuid (idHeader : Bytes)
  | waitForAsyncReply
  | notifyAsyncReplyDone
  deriving DecidableEq

/-- A connection with its pending operations. `posted` counts the queued calls of
`handle_async_reply_done`, `drawn` the uuids drawn, and `lent` says that a handler has
been given the connection. -/
structure Session (State : Type) where
  conn : Connection State
  timer : DeadlineTimer Waiter
  reads : Nat
  writes : List Write
  posted : Nat
  handshakes : Nat
  lent : Bool
  drawn : Nat
  fault : Option Fault
  log : List Obs

/-- The two virtual functions through which a handler defers its reply. -/
structure AsyncReply (State : Type) where
  waitForAsyncReply : Session State → Session State
  notifyAsyncReplyDone : Session State → Session State

namespace Session

variable {State : Type}

/-- A connection that has been constructed and has started nothing yet. -/
def new (conn : Connection State) : Session State where
  conn := conn
  timer := .new
  reads := 0
  writes := []
  posted := 0
  handshakes := 0
  lent := false
  drawn := 0
  fault := none
  log := []

/-! ## Actions -/

def note (s : Session State) (o : Obs) : Session State := { s with log := s.log ++ [o] }

def crash (s : Session State) (f : Fault) : Session State := { s with fault := some f }

/-- Go on unless the program has crashed. -/
def andThen (s : Session State) (f : Session State → Session State) : Session State :=
  if s.fault.isSome then s else f s

def setReply (s : Session State) (r : Reply) : Session State :=
  { s with conn := { s.conn with reply := r } }

def setWaiting (s : Session State) (b : Bool) : Session State :=
  { s with conn := { s.conn with waitingForAsyncReply := b } }

/-- Use a reply that may have failed on its null buffer. -/
def takeReply (s : Session State) : Except Fault Reply → Session State
  | .ok r => s.setReply r
  | .error f => s.crash f

/-- The timer of the connection: a new deadline in `ms` milliseconds. -/
def arm (s : Session State) (ms : Nat) (w : Waiter) : Session State :=
  { s with timer := (s.timer.expiresFromNow ms).asyncWait w }

def cancelTimer (s : Session State) : Session State := { s with timer := s.timer.cancel }

def startRead (s : Session State) : Session State :=
  let s := { s with reads := s.reads + 1 }
  s.note .readStarted

variable (E : Externals)

/-- `request().request_id(idHeader)`. -/
def requestId (s : Session State) (idHeader : Bytes) : Session State :=
  let (r, k) := s.conn.request.fillRequestId E.uuids idHeader s.drawn
  { s with conn := { s.conn with request := r }, drawn := k }

/-- `request().request_uuid(idHeader)`. -/
def requestUuid (s : Session State) (idHeader : Bytes) : Session State :=
  let (r, k) := s.conn.request.fillRequestUuid E.uuids idHeader s.drawn
  { s with conn := { s.conn with request := r }, drawn := k }

/-- Log the id of the request. The connection code always relies on the default header name. -/
def logRequestId (s : Session State) : Session State :=
  let s := s.requestId E Request.defaultIdHeader
  s.note (.requestIdLogged s.conn.request.requestId)

/-- Log the id and the method of the request. -/
def logRequest (s : Session State) : Session State :=
  let s := s.logRequestId E
  s.note (.methodLogged s.conn.request.method)

/-- `header_t("Connection", "close")`. -/
def connectionClose : Header := ⟨ascii "Connection", ascii "close"⟩

def addClose (s : Session State) : Session State :=
  if s.conn.keepAlive then s else s.setReply (s.conn.reply.add connectionClose)

def startWrite (s : Session State) : Session State :=
  match s.conn.reply.toBuffers with
  | .error f => s.crash f
  | .ok (r, buffers) =>
    let s := s.setReply r
    let s := { s with writes := s.writes ++ [Write.mk r buffers] }
    s.note (.replied r buffers)

/-- `send_reply`, which both transports write out with the same steps. -/
def sendReply (s : Session State) : Session State :=
  ((((s.note (.replying s.conn.reply)).logRequest E).setWaiting false).addClose).startWrite

/-! ## The handler -/

variable (A : AsyncReply State)

def handlerOp (s : Session State) : HandlerOp → Session State
  | .writeContent bytes => s.takeReply (s.conn.reply.writeContent bytes)
  | .create status contentType extraHeaders =>
    s.takeReply (s.conn.reply.create status contentType extraHeaders)
  | .addHeader h => s.setReply (s.conn.reply.add h)
  | .resetReply => s.setReply s.conn.reply.reset
  | .requestId idHeader => s.requestId E idHeader
  | .requestUuid idHeader => s.requestUuid E idHeader
  | .waitForAsyncReply => A.waitForAsyncReply s
  | .notifyAsyncReplyDone => A.notifyAsyncReplyDone s

def handlerOps (s : Session State) : List HandlerOp → Session State
  | [] => s
  | op :: ops => (s.handlerOp E A op).andThen (fun s => handlerOps s ops)

/-- `_server->handle_request(shared_from_this())`; the handler that is found runs `ops`. -/
def handleRequest (s : Session State) (ops : List HandlerOp) : Session State :=
  let s := { s with lent := true }
  (s.note (.dispatched s.conn.request)).handlerOps E A ops

/-! ## The body of `handle_read` -/

/-- The branch `bad_parse`. -/
def badRequest (s : Session State) : Session State :=
  (s.takeReply (s.conn.reply.create .badRequest Reply.textHtml 0)).andThen (sendReply E)

/-- The branch `request_complete()`; `prepare` is what precedes the log line. -/
def dispatch (prepare : Session State → Session State) (ops : List HandlerOp) (s : Session State) :
    Session State :=
  (((prepare s).logRequest E).handleRequest E A ops).andThen (fun s =>
    if s.conn.waitingForAsyncReply then s.arm 3605000 .handleTimer else s.sendReply E)

/-- Wait for more of the request. -/
def readMore (s : Session State) : Session State := (s.arm 5000 .handleTimer).startRead

end Session

namespace Session

variable (E : Externals) (A : AsyncReply E.parser.State)

/-- `http_parse` on the bytes read. -/
def parse (bytes : Bytes) (s : Session E.parser.State) : Session E.parser.State :=
  let p := s.conn.httpParse E.parser bytes
  { s with conn := p.conn, log := s.log ++ p.made.map Obs.callback }

/-- The branch `!e` of `handle_read`. -/
def readSucceeded (prepare : Session E.parser.State → Session E.parser.State) (bytes : Bytes)
    (ops : List HandlerOp) (s : Session E.parser.State) : Session E.parser.State :=
  match (s.conn.httpParse E.parser bytes).result with
  | .error f => (s.parse E bytes).crash f
  | .ok nparsed =>
    let s := (s.parse E bytes).note (.parsed bytes.length nparsed)
    if nparsed ≠ bytes.length then s.badRequest E
    else if s.conn.requestComplete then s.dispatch E A prepare ops
    else s.readMore

end Session

/-! ## Steps -/

/-- What the environment lets happen next. A successful read brings some bytes and with
them what the handler, if one is called, will do before it returns. -/
inductive Event where
  | handshake (e : ErrorCode)
  | read (e : ErrorCode) (bytes : Bytes) (ops : List HandlerOp)
  | write (i : Nat) (e : ErrorCode)
  /-- The deadline of the timer passes. -/
  | expire
  /-- The queued completion `i` of the timer runs. -/
  | timer (i : Nat)
  /-- The posted `handle_async_reply_done` runs. -/
  | asyncReplyDone
  /-- A handler that has returned uses the connection it still holds. -/
  | handler (op : HandlerOp)
  deriving DecidableEq

/-- The completion handlers of a transport. -/
structure Transport (State : Type) where
  async : AsyncReply State
  handleHandshake : ErrorCode → Session State → Session State
  handleRead : ErrorCode → Bytes → List HandlerOp → Session State → Session State
  handleWrite : ErrorCode → Session State → Session State
  handleWait : Wait Waiter → ErrorCode → Session State → Session State
  handleAsyncReplyDone : Session State → Session State

/-- `_buffer`. -/
def bufferSize : Nat := 8192

/-- A read that succeeds brings between one byte and a full buffer. -/
def fillsBuffer (e : ErrorCode) (bytes : Bytes) : Bool :=
  e != .success || (bytes != [] && decide (bytes.length ≤ bufferSize))

namespace Session

variable {State : Type}

/-- One completion, or one action of a handler that has returned. -/
def step (E : Externals) (T : Transport State) (s : Session State) (ev : Event) :
    Option (Session State) :=
  if s.fault.isSome then none
  else match ev with
  | .handshake e =>
    if 0 < s.handshakes then some (T.handleHandshake e { s with handshakes := s.handshakes - 1 })
    else none
  | .read e bytes ops =>
    if 0 < s.reads ∧ fillsBuffer e bytes then
      some (T.handleRead e bytes ops { s with reads := s.reads - 1 })
    else none
  | .write i e =>
    if i < s.writes.length then some (T.handleWrite e { s with writes := s.writes.eraseIdx i })
    else none
  | .expire => if s.timer.pending ≠ [] then some { s with timer := s.timer.expire } else none
  | .timer i =>
    match s.timer.dequeue i with
    | some (c, timer) => some (T.handleWait c.wait c.code { s with timer := timer })
    | none => none
  | .asyncReplyDone =>
    if 0 < s.posted then some (T.handleAsyncReplyDone { s with posted := s.posted - 1 }) else none
  | .handler op => if s.lent then some (s.handlerOp E T.async op) else none

end Session

end CsiHttp.Server

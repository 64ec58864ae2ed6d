import Mathlib.Logic.Function.Basic
import CsiHttp.Lib.DeadlineTimer
import CsiHttp.Lib.Text

/-!
# `http_client`

The client drives libcurl from the handlers of an `io_service`. libcurl is not part of the
repository: what it does in a call is a list of `CurlAct`, chosen by the environment, in
the order in which it is done. A call of `curl_multi_socket_action` that is made from
inside a callback goes on within the same list, since nothing follows it there.

Requests are numbered, and so are the socket objects, in the order of their creation.
-/
namespace CsiHttp.Client

open Lib Lib.Text

/-- The values of `what`: `CURL_POLL_IN`, `CURL_POLL_OUT`, `CURL_POLL_INOUT` and
`CURL_POLL_REMOVE`. -/
inductive Poll where
  | pollIn
  | pollOut
  | pollInOut
  | pollRemove
  deriving DecidableEq, Repr

/-- `http_client::call_context`, with what libcurl keeps for its easy handle. -/
structure CallContext where
  method : Nat
  hasCallback : Bool
  txBuffer : Bytes
  /-- What `_avro_tx_stream_reader` has not read yet. -/
  txUnread : Bytes
  rxBuffer : Bytes
  rxHeaders : List Bytes
  httpResult : Nat
  /-- No constructor assigns `_transport_ok`. -/
  transportOk : Option Bool
  curlDone : Bool
  /-- `_curl_shared` refers to the context itself. -/
  curlShared : Bool
  /-- `CURLOPT_PRIVATE` is the context; otherwise it is null. -/
  curlPrivate : Bool
  deriving DecidableEq, Repr

def CallContext.new (method : Nat) (content : Bytes) : CallContext where
  method := method
  hasCallback := false
  txBuffer := content
  txUnread := []
  rxBuffer := []
  rxHeaders := []
  httpResult := 0
  transportOk := none
  curlDone := false
  curlShared := false
  curlPrivate := false

def CallContext.ok (x : CallContext) : Bool :=
  x.transportOk == some true && decide (200 ≤ x.httpResult) && decide (x.httpResult < 300)

/-- What a callback reads of the context. -/
structure Outcome where
  httpResult : Nat
  ok : Bool
  rxHeaders : List Bytes
  rxBuffer : Bytes
  deriving DecidableEq, Repr

def CallContext.outcome (x : CallContext) : Outcome := ⟨x.httpResult, x.ok, x.rxHeaders, x.rxBuffer⟩

/-- `boost::asio::ip::tcp::socket`. -/
structure TcpSocket where
  descriptor : Nat
  isOpen : Bool
  deriving DecidableEq, Repr

/-- A wait for the readiness of a socket, on behalf of a request. -/
structure Watch where
  socket : Nat
  context : Nat
  output : Bool
  deriving DecidableEq, Repr

/-- Handlers that are ready to run on the `io_service`. -/
inductive Work where
  | perform (h : Nat)
  | pollRemove (h : Nat)
  | deleteSocket (o : Nat)
  | socketCb (w : Watch) (e : ErrorCode)
  deriving DecidableEq, Repr

/-- What libcurl knows: the easy handles in the multi handle, their response codes, and
the pointers that `curl_multi_assign` has attached to sockets. -/
structure Curl where
  added : Nat → Bool
  finished : Nat → Bool
  responseCode : Nat → Nat
  assigned : Nat → Option Nat

namespace Curl

/-- `curl_multi_add_handle` accepts the handle. -/
def add (m : Curl) (h : Nat) : Curl :=
  { m with
    added := Function.update m.added h true
    finished := Function.update m.finished h false
    responseCode := Function.update m.responseCode h 0 }

def remove (m : Curl) (h : Nat) : Curl := { m with added := Function.update m.added h false }

def respond (m : Curl) (h code : Nat) : Curl :=
  { m with responseCode := Function.update m.responseCode h code }

def finish (m : Curl) (h : Nat) : Curl := { m with finished := Function.update m.finished h true }

def assign (m : Curl) (s : Nat) (o : Option Nat) : Curl :=
  { m with assigned := Function.update m.assigned s o }

/-- The transfer of the handle goes on. -/
def busy (m : Curl) (h : Nat) : Bool := m.added h && !m.finished h

end Curl

inductive Obs where
  /-- `opensocket_cb` has opened a socket. -/
  | opened (s : Nat)
  /-- `closesocket_cb` is called. -/
  | closed (s : Nat)
  /-- `curl_multi_add_handle` has accepted the request. -/
  | started (h : Nat)
  | refused (h : Nat)
  | response (h code : Nat)
  | header (h : Nat) (line : Bytes)
  | body (h : Nat) (data : Bytes)
  /-- libcurl has finished the transfer; `code` is the response code. -/
  | finished (h code : Nat)
  | removed (h : Nat)
  /-- `sock_cb` is called; `live` says that `CURLOPT_PRIVATE` yields a context that keeps
  itself alive. -/
  | sock (h s : Nat) (what : Poll) (live : Bool)
  /-- A completion reaches `socket_rx_cb`; `handled` says that `_curl_done` lets it go on. -/
  | readable (h : Nat) (handled : Bool)
  /-- The callback of the request is invoked with the context `x`. -/
  | called (h : Nat) (x : CallContext)
  /-- `curl_multi_socket_action` is called with `CURL_SOCKET_TIMEOUT`. -/
  | timeoutAction
  deriving DecidableEq, Repr

/-- What ends the program outright. -/
inductive Fault where
  /-- `assert(context)` in `sock_cb` fails. -/
  | nullContext
  | danglingSocket
  | unsupportedMethod
  deriving DecidableEq, Repr

structure HttpClient where
  contexts : Nat → CallContext
  socketMap : Nat → Option Nat
  sockets : Nat → Option TcpSocket
  nextSocket : Nat
  timer : DeadlineTimer Unit
  watches : List Watch
  queue : List Work
  curl : Curl
  fault : Option Fault
  log : List Obs

/-- One thing libcurl does while it is called. `again` are the requests that a callback,
if one is invoked, passes to `perform_async`. -/
inductive CurlAct where
  | opensocket (supported opened : Bool) (s : Nat)
  | closesocket (s : Nat)
  | sockCb (h s : Nat) (what : Poll) (again : List Nat)
  | multiTimer (ms : Int)
  | response (h code : Nat)
  /-- `read_callback_avro_stream` is called for `n` bytes. -/
  | read (h n : Nat)
  /-- `parse_headers` is called. -/
  | header (h : Nat) (line : Bytes)
  /-- `write_callback_avro_stream` is called. -/
  | write (h : Nat) (data : Bytes)
  | finish (h : Nat)
  deriving DecidableEq, Repr

namespace HttpClient

/-- A client before its first request; `method h` and `content h` belong to request `h`. -/
def new (method : Nat → Nat) (content : Nat → Bytes) : HttpClient where
  contexts h := .new (method h) (content h)
  socketMap _ := none
  sockets _ := none
  nextSocket := 0
  timer := .new
  watches := []
  queue := []
  curl := ⟨fun _ => false, fun _ => false, fun _ => 0, fun _ => none⟩
  fault := none
  log := []

def note (c : HttpClient) (o : Obs) : HttpClient := { c with log := c.log ++ [o] }

def crash (c : HttpClient) (f : Fault) : HttpClient := { c with fault := some f }

def post (c : HttpClient) (w : Work) : HttpClient := { c with queue := c.queue ++ [w] }

def updateContext (c : HttpClient) (h : Nat) (f : CallContext → CallContext) : HttpClient :=
  { c with contexts := Function.update c.contexts h (f (c.contexts h)) }

def assign (c : HttpClient) (s : Nat) (o : Option Nat) : HttpClient :=
  { c with curl := c.curl.assign s o }

/-- `http_client::perform_async`. -/
def performAsync (c : HttpClient) (h : Nat) : HttpClient :=
  (c.updateContext h (fun x => { x with hasCallback := true })).post (.perform h)

/-! ## Callbacks of libcurl -/

/-- The operating system has given the descriptor to a socket that is open. -/
def descriptorOpen (c : HttpClient) (s : Nat) : Bool :=
  (List.range c.nextSocket).any (fun o => c.sockets o == some ⟨s, true⟩)

/-- `http_client::opensocket_cb`. `supported` says that the purpose is a connection and the
address family IPv4, `opened` that the socket could be opened, with the descriptor `s`. -/
def opensocketCb (c : HttpClient) (supported opened : Bool) (s : Nat) : HttpClient :=
  if supported && opened then
    let c := { c with
      sockets := Function.update c.sockets c.nextSocket (some ⟨s, true⟩)
      -- an entry that exists is not replaced by `insert`
      socketMap := Function.update c.socketMap s (some ((c.socketMap s).getD c.nextSocket))
      nextSocket := c.nextSocket + 1 }
    c.note (.opened s)
  else c

/-- Every wait that is pending on the socket object completes with an abort. -/
def cancelSocket (c : HttpClient) (o : Nat) : HttpClient :=
  { c with
    watches := c.watches.filter (fun w => w.socket != o)
    queue := c.queue ++
      (c.watches.filter (fun w => w.socket == o)).map (fun w => .socketCb w .operationAborted) }

def closeSocket (c : HttpClient) (o : Nat) : HttpClient :=
  let t := (c.sockets o).map (fun t => { t with isOpen := false })
  { c with sockets := Function.update c.sockets o t }

def eraseSocket (c : HttpClient) (s : Nat) : HttpClient :=
  { c with socketMap := Function.update c.socketMap s none }

/-- `http_client::closesocket_cb`. -/
def closesocketCb (c : HttpClient) (s : Nat) : HttpClient :=
  let c := c.note (.closed s)
  match c.socketMap s with
  | some o =>
    ((((c.cancelSocket o).closeSocket o).assign s none).eraseSocket s).post (.deleteSocket o)
  | none => c

/-- `http_client::timer_cb`, up to its call of `curl_multi_socket_action`. -/
def timerCb (c : HttpClient) (e : ErrorCode) : HttpClient :=
  match e with
  | .success => c.note .timeoutAction
  | _ => c

/-- `http_client::multi_timer_cb`. -/
def multiTimerCb (c : HttpClient) (ms : Int) : HttpClient :=
  let c := { c with timer := c.timer.cancel }
  if 0 < ms then { c with timer := (c.timer.expiresFromNow ms.toNat).asyncWait () }
  else c.timerCb .success

/-- `async_read_some` or `async_write_some` with null buffers; it fails on a socket that is
not open. -/
def watch (c : HttpClient) (o h : Nat) (output : Bool) : HttpClient :=
  match c.sockets o with
  | some t =>
    if t.isOpen then { c with watches := c.watches ++ [⟨o, h, output⟩] }
    else c.post (.socketCb ⟨o, h, output⟩ .failure)
  | none => c.crash .danglingSocket

def storeResult (c : HttpClient) (h : Nat) : HttpClient :=
  let result := c.curl.responseCode h
  c.updateContext h (fun x =>
    { x with httpResult := result, curlDone := true, transportOk := some (decide (0 < result)) })

def invokeCallback (c : HttpClient) (h : Nat) (again : List Nat) : HttpClient :=
  if (c.contexts h).hasCallback then
    again.foldl performAsync (c.note (.called h (c.contexts h)))
  else c

/-- `call_context::curl_stop`, and `CURLOPT_PRIVATE` becomes null. -/
def curlStop (c : HttpClient) (h : Nat) : HttpClient :=
  c.updateContext h (fun x => { x with curlShared := false, curlPrivate := false })

/-- The branch `CURL_POLL_REMOVE` of `sock_cb`. -/
def pollRemoved (c : HttpClient) (h : Nat) (again : List Nat) : HttpClient :=
  (((c.storeResult h).invokeCallback h again).curlStop h).post (.pollRemove h)

/-- The socket object that `sock_cb` works on: the one attached to the socket, or else the
one in the map of the client. -/
def lookup (c : HttpClient) (s : Nat) : Option Nat := (c.curl.assigned s).or (c.socketMap s)

/-- The `switch` of `sock_cb`; `o` is the socket object. -/
def polled (c : HttpClient) (h o : Nat) (what : Poll) (again : List Nat) : HttpClient :=
  match what with
  | .pollRemove => c.pollRemoved h again
  | .pollIn => c.watch o h false
  | .pollOut => c.watch o h true
  | .pollInOut => (c.watch o h false).watch o h true

/-- `http_client::sock_cb`. -/
def sockCb (c : HttpClient) (h s : Nat) (what : Poll) (again : List Nat) : HttpClient :=
  let x := c.contexts h
  let c := c.note (.sock h s what (x.curlPrivate && x.curlShared))
  if x.curlPrivate then
    match c.lookup s with
    | none => c
    | some o => (c.assign s (some o)).polled h o what again
  else c.crash .nullContext

/-! ## Calls of libcurl -/

/-- libcurl makes socket callbacks only for the handles it has been given, and only an
unfinished transfer goes on. When a socket need not be watched any longer, libcurl forgets
what is attached to it. The operating system reuses only descriptors that are closed. -/
def act (c : HttpClient) : CurlAct → Option HttpClient
  | .opensocket supported opened s =>
    if c.descriptorOpen s then none else some (c.opensocketCb supported opened s)
  | .closesocket s => some (c.closesocketCb s)
  | .sockCb h s what again =>
    if c.curl.added h then
      let c := c.sockCb h s what again
      some (if what = .pollRemove then c.assign s none else c)
    else none
  | .multiTimer ms => some (c.multiTimerCb ms)
  | .response h code =>
    if c.curl.busy h then
      some (note { c with curl := c.curl.respond h code } (.response h code))
    else none
  | .read h n =>
    if c.curl.busy h then
      some (c.updateContext h (fun x => { x with txUnread := x.txUnread.drop n }))
    else none
  | .header h line =>
    if c.curl.busy h then
      let c := c.updateContext h (fun x => { x with rxHeaders := x.rxHeaders ++ [line] })
      some (c.note (.header h line))
    else none
  | .write h data =>
    if c.curl.busy h then
      let c := c.updateContext h (fun x => { x with rxBuffer := x.rxBuffer ++ data })
      some (c.note (.body h data))
    else none
  | .finish h =>
    if c.curl.busy h then
      some (note { c with curl := c.curl.finish h } (.finished h (c.curl.responseCode h)))
    else none

/-- What libcurl does until it returns or the program has crashed. -/
def acts (c : HttpClient) : List CurlAct → Option HttpClient
  | [] => some c
  | a :: as => if c.fault.isSome then some c else (c.act a).bind (fun c => acts c as)

/-- libcurl is not called. -/
def noActs (c : HttpClient) (as : List CurlAct) : Option HttpClient :=
  if as = [] then some c else none

/-- `http_client::socket_rx_cb` and `http_client::socket_tx_cb`. The call of libcurl is not noted
as one for a timeout, which it is on a closed socket, whose `native_handle()` is -1. -/
def socketCb (c : HttpClient) (w : Watch) (e : ErrorCode) (as : List CurlAct) : Option HttpClient :=
  if e = .success ∧ (w.output ∨ (c.contexts w.context).curlDone = false) then
    match c.sockets w.socket with
    | none => (c.crash .danglingSocket).noActs as
    | some _ =>
      (c.acts as).map (fun c =>
        if c.fault.isSome ∨ w.output ∨ (c.contexts w.context).curlDone then c
        else c.watch w.socket w.context false)
  else c.noActs as

def noteReadable (c : HttpClient) (w : Watch) (e : ErrorCode) : HttpClient :=
  if e = .success ∧ w.output = false then
    c.note (.readable w.context (!(c.contexts w.context).curlDone))
  else c

/-- `GET`, `POST` and `PUT`. -/
def supportedMethods : List Nat := [1, 3, 4]

/-- `call_context::curl_start` and the new `_avro_tx_stream`. -/
def curlStart (c : HttpClient) (h : Nat) : HttpClient :=
  c.updateContext h (fun x => { x with curlShared := true, txUnread := x.txBuffer })

def setPrivate (c : HttpClient) (h : Nat) : HttpClient :=
  c.updateContext h (fun x => { x with curlPrivate := true })

/-- `http_client::_perform`. libcurl refuses a handle that it has already, and any other
when `accepted` is false. -/
def perform (c : HttpClient) (h : Nat) (accepted : Bool) (as : List CurlAct) :
    Option HttpClient :=
  let c := c.curlStart h
  if (c.contexts h).method ∈ supportedMethods then
    let c := c.setPrivate h
    if accepted && !c.curl.added h then
      (note { c with curl := c.curl.add h } (.started h)).acts as
    else (c.note (.refused h)).noActs as
  else (c.crash .unsupportedMethod).noActs as

/-- `http_client::_poll_remove`. -/
def pollRemove (c : HttpClient) (h : Nat) (as : List CurlAct) : Option HttpClient :=
  if c.curl.added h then
    (c.acts as).map (fun c =>
      if c.fault.isSome then c else note { c with curl := c.curl.remove h } (.removed h))
  else c.noActs as

def deleteSocket (c : HttpClient) (o : Nat) : HttpClient :=
  { c with sockets := Function.update c.sockets o none }

/-- Run a handler; `as` is what libcurl does if it is called. -/
def run (c : HttpClient) (accepted : Bool) (as : List CurlAct) : Work → Option HttpClient
  | .perform h => c.perform h accepted as
  | .pollRemove h => c.pollRemove h as
  | .deleteSocket o => (c.deleteSocket o).noActs as
  | .socketCb w e => (c.noteReadable w e).socketCb w e as

end HttpClient

/-! ## Steps -/

inductive Event where
  /-- A request is passed to `perform_async`. -/
  | performAsync (h : Nat)
  /-- The socket of the pending wait `i` is ready. -/
  | ready (i : Nat)
  /-- The deadline of the timer passes. -/
  | expire
  /-- The queued completion `i` of the timer runs. -/
  | timer (i : Nat) (as : List CurlAct)
  /-- The queued handler `i` runs. -/
  | run (i : Nat) (accepted : Bool) (as : List CurlAct)
  deriving DecidableEq, Repr

namespace HttpClient

def step (c : HttpClient) (ev : Event) : Option HttpClient :=
  if c.fault.isSome then none
  else match ev with
  | .performAsync h => some (c.performAsync h)
  | .ready i =>
    (c.watches[i]?).map (fun w =>
      { c with watches := c.watches.eraseIdx i }.post (.socketCb w .success))
  | .expire => if c.timer.pending ≠ [] then some { c with timer := c.timer.expire } else none
  | .timer i as =>
    match c.timer.dequeue i with
    | some (x, timer) =>
      let c := { c with timer := timer }.timerCb x.code
      if x.code = .success then c.acts as else c.noActs as
    | none => none
  | .run i accepted as =>
    match c.queue[i]? with
    | some w => { c with queue := c.queue.eraseIdx i }.run accepted as w
    | none => none

end HttpClient

end CsiHttp.Client

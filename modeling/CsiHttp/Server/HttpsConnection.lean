import CsiHttp.Server.Session

/-!
# `https_connection`

A deferred reply is sent by the completion handler of the wait that
`wait_for_async_reply` starts: an abort of that wait is taken to mean that the reply is
ready. The same timer is armed again by `handle_read`.
-/
namespace CsiHttp.Server.HttpsConnection

open Lib Lib.Text

variable (E : Externals)

/-- `https_connection::send_reply`. -/
def sendReply {State : Type} (s : Session State) : Session State := s.sendReply E

/-- `https_connection::wait_for_async_reply`. -/
def waitForAsyncReply {State : Type} (s : Session State) : Session State :=
  ((s.note .deferred).setWaiting true).arm 3660000 .handleAsyncCall

/-- `https_connection::notify_async_reply_done`. -/
def notifyAsyncReplyDone {State : Type} (s : Session State) : Session State :=
  ((s.note (.notified s.conn.reply)).logRequestId E).cancelTimer

def async {State : Type} : AsyncReply State := ⟨waitForAsyncReply, notifyAsyncReplyDone E⟩

/-- `https_connection::handle_handshake`. -/
def handleHandshake {State : Type} (e : ErrorCode) (s : Session State) : Session State :=
  match e with
  | .success => s.startRead
  | _ => s

/-- `https_connection::handle_read`. -/
def handleRead (e : ErrorCode) (bytes : Bytes) (ops : List HandlerOp)
    (s : Session E.parser.State) : Session E.parser.State :=
  match e with
  | .operationAborted => s
  | .success =>
    s.readSucceeded E (async E) (fun s => s.requestUuid E Request.defaultIdHeader) bytes ops
  | .failure => s

/-- `https_connection::handle_write_complete`. -/
def handleWriteComplete {State : Type} (e : ErrorCode) (s : Session State) : Session State :=
  match e with
  | .operationAborted => s
  | .success =>
    ((s.setReply s.conn.reply.reset).cancelTimer.arm 5000 .handleTimer).startRead
  | .failure => s

/-- `https_connection::handle_timer`. -/
def handleTimer {State : Type} (w : Wait Waiter) (e : ErrorCode) (s : Session State) :
    Session State :=
  match e with
  | .operationAborted => s
  | .success => s.note (.timedOut w)
  | .failure => s

/-- `https_connection::handle_async_call`. -/
def handleAsyncCall {State : Type} (w : Wait Waiter) (e : ErrorCode) (s : Session State) :
    Session State :=
  match e with
  | .operationAborted => sendReply E s
  | .success => s.note (.timedOut w)
  | .failure => s

def handleWait {State : Type} (w : Wait Waiter) (e : ErrorCode) (s : Session State) :
    Session State :=
  match w.handler with
  | .handleTimer => handleTimer w e s
  | .handleAsyncCall => handleAsyncCall E w e s

/-- Nothing is ever posted by this transport. -/
def transport : Transport E.parser.State where
  async := async E
  handleHandshake := handleHandshake
  handleRead := handleRead E
  handleWrite := handleWriteComplete
  handleWait := handleWait E
  handleAsyncReplyDone := id

/-- `https_connection::start` on a new connection. -/
def start (tag : Bytes) (junk : Uninitialised) : Session E.parser.State :=
  { Session.new (.new tag junk E.parser.init) with handshakes := 1 }

abbrev step : Session E.parser.State → Event → Option (Session E.parser.State) :=
  Session.step E (transport E)

end CsiHttp.Server.HttpsConnection

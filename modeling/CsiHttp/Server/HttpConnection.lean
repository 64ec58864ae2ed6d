import CsiHttp.Server.Session

/-!
# `http_connection`

A deferred reply is sent by a handler posted to the `io_service`; the timer only guards
against silence.
-/
namespace CsiHttp.Server.HttpConnection

open Lib Lib.Text

variable (E : Externals)

/-- `http_connection::send_reply`. -/
def sendReply {State : Type} (s : Session State) : Session State := s.sendReply E

/-- `http_connection::wait_for_async_reply`. -/
def waitForAsyncReply {State : Type} (s : Session State) : Session State :=
  ((s.note .deferred).setWaiting true).arm 5000 .handleTimer

/-- `http_connection::notify_async_reply_done`. -/
def notifyAsyncReplyDone {State : Type} (s : Session State) : Session State :=
  let s := (s.note (.notified s.conn.reply)).logRequestId E
  { s with posted := s.posted + 1 }

def async {State : Type} : AsyncReply State := ⟨waitForAsyncReply, notifyAsyncReplyDone E⟩

/-- `http_connection::handle_read`. -/
def handleRead (e : ErrorCode) (bytes : Bytes) (ops : List HandlerOp)
    (s : Session E.parser.State) : Session E.parser.State :=
  match e with
  | .operationAborted => s
  | .success => s.cancelTimer.readSucceeded E (async E) id bytes ops
  | .failure => s.cancelTimer

/-- `http_connection::handle_write`. -/
def handleWrite {State : Type} (e : ErrorCode) (s : Session State) : Session State :=
  match e with
  | .operationAborted => s
  | .success =>
    if s.conn.keepAlive then
      let s := s.setReply s.conn.reply.reset
      let s := { s with conn := { s.conn with request := s.conn.request.reset } }
      (s.cancelTimer.arm 5000 .handleTimer).startRead
    else s.cancelTimer
  | .failure => if s.conn.keepAlive then s else s.cancelTimer

/-- `http_connection::handle_timer`, the only handler this transport gives its timer. The
operations it cancels on the socket complete later, like any other. -/
def handleTimer {State : Type} (w : Wait Waiter) (e : ErrorCode) (s : Session State) :
    Session State :=
  match e with
  | .operationAborted => s
  | .success => s.note (.timedOut w)
  | .failure => s

/-- `http_connection::handle_async_reply_done`. -/
def handleAsyncReplyDone {State : Type} (s : Session State) : Session State :=
  sendReply E s.cancelTimer

def transport : Transport E.parser.State where
  async := async E
  handleHandshake _ s := s
  handleRead := handleRead E
  handleWrite := handleWrite
  handleWait := handleTimer
  handleAsyncReplyDone := handleAsyncReplyDone E

/-- `http_connection::start` on a new connection. -/
def start (tag : Bytes) (junk : Uninitialised) : Session E.parser.State :=
  (Session.new (.new tag junk E.parser.init)).startRead

abbrev step : Session E.parser.State → Event → Option (Session E.parser.State) :=
  Session.step E (transport E)

end CsiHttp.Server.HttpConnection

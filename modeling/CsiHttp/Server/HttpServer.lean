import CsiHttp.Server.HttpConnection
import CsiHttp.Server.HttpsConnection

/-!
# `http_server` and `https_server`: the connections that are accepted

Both servers keep one connection ready for the next client. The name of the request id
header goes from the constructor of the server into every connection it creates.
-/
namespace CsiHttp.Server

open Lib Lib.Text

/-- The members of the two servers that have to do with their connections. -/
structure HttpServer (State : Type) where
  requestIdHeader : Bytes
  newConnection : Connection State

namespace HttpServer

variable (P : HttpParser)

/-- `http_server::http_server` and `https_server::https_server`. -/
def new (requestIdHeader : Bytes) (junk : Uninitialised) : HttpServer P.State :=
  ⟨requestIdHeader, .new requestIdHeader junk P.init⟩

/-- `handle_accept`: the server after it, and the connection that has been started. -/
def handleAccept (start : Connection P.State → Session P.State) (e : ErrorCode)
    (junk : Uninitialised) (s : HttpServer P.State) : HttpServer P.State × Option (Session P.State) :=
  match e with
  | .success =>
    ({ s with newConnection := .new s.requestIdHeader junk P.init }, some (start s.newConnection))
  | .operationAborted | .failure => (s, none)

/-- The connections that a sequence of completed accepts has started. -/
def accepted (start : Connection P.State → Session P.State) :
    HttpServer P.State → List (ErrorCode × Uninitialised) → List (Session P.State)
  | _, [] => []
  | s, (e, junk) :: accepts =>
    (s.handleAccept P start e junk).2.toList ++
      accepted start (s.handleAccept P start e junk).1 accepts

variable {P}

/-- Every connection has been constructed with the name that the server was given. -/
theorem exists_of_mem_accepted {start : Connection P.State → Session P.State} {tag : Bytes}
    {junk : Uninitialised} {accepts : List (ErrorCode × Uninitialised)} {x : Session P.State}
    (h : x ∈ accepted P start (new P tag junk) accepts) :
    ∃ junk', x = start (.new tag junk' P.init) := by
  induction accepts generalizing junk with
  | nil => cases h
  | cons a accepts ih =>
    obtain ⟨e, junk'⟩ := a
    rcases List.mem_append.mp h with hx | hx
    · cases e with
      | success => exact ⟨junk, List.mem_singleton.mp hx⟩
      | operationAborted | failure => cases hx
    · cases e with
      | success => exact ih hx
      | operationAborted | failure => exact ih hx

end HttpServer

/-- `http_connection::start`. -/
def HttpConnection.started {State : Type} (c : Connection State) : Session State :=
  (Session.new c).startRead

/-- `https_connection::start`. -/
def HttpsConnection.started {State : Type} (c : Connection State) : Session State :=
  { Session.new c with handshakes := 1 }

end CsiHttp.Server

import CsiHttp.Service.Handlers

/-!
# Services that plan their replies

The handlers of the sample servers look at the request. They answer it at once, or they start a
timer, whose handler answers it later, or they end with an exception. A desk is a server with such
handlers and the timers that they have started.
-/
namespace CsiHttp.Service

open Lib Lib.Text Lib.Runs Server

/-! ## Plans -/

/-- What a handler writes to the content of a reply, and the status with which it creates it. -/
structure Answer where
  status : StatusType
  pieces : List Bytes
  deriving DecidableEq

namespace Answer

def content (a : Answer) : Bytes := a.pieces.flatten

def ops (a : Answer) : List HandlerOp :=
  a.pieces.map .writeContent ++ [.create a.status Reply.textHtml 0]

/-- The 404 of `server::handle_request`, -/
def notFound : Answer := ⟨.notFound, []⟩

/-- and the 400 of `handle_read`. -/
def badRequest : Answer := ⟨.badRequest, []⟩

/-- The reply is this answer and nothing else. -/
def Fits (a : Answer) (r : Reply) : Prop :=
  r.status = a.status ∧ r.txBuffer = some a.content ∧
    r.headers = Reply.ownHeaders a.content Reply.textHtml

instance (a : Answer) (r : Reply) : Decidable (a.Fits r) := by
  unfold Fits
  infer_instance

end Answer

/-- What a handler makes of a request. -/
inductive Plan where
  | now (a : Answer)
  | later (a : Answer)
  | throws
  deriving DecidableEq

namespace Plan

def reaction : Plan → Reaction
  | now a => ⟨a.ops, 0, false⟩
  | later _ => ⟨[.waitForAsyncReply], 1, false⟩
  | throws => ⟨[], 0, true⟩

/-- The answers for which a timer is started. -/
def jobs : Plan → List Answer
  | later a => [a]
  | now _ | throws => []

def answer : Plan → Option Answer
  | now a | later a => some a
  | throws => none

end Plan

/-- The answer to a request, if the server lives to give it. -/
def expected (patterns : List Bytes) (plan : Request → Plan) (r : Request) : Option Answer :=
  match routed patterns r.url with
  | some _ => (plan r).answer
  | none => some .notFound

/-! ## Desks -/

/-- A server with the timers of its handlers: the connection of each, and the answer it will give. -/
structure Desk (State : Type) where
  system : System State
  jobs : List (Nat × Answer)

namespace Desk

inductive Event where
  | accept (n : Nat) (e : ErrorCode) (junk : Uninitialised)
  | read (i : Nat) (e : ErrorCode) (bytes : Bytes)
  | complete (i : Nat) (ev : Server.Event)
  | shutdown (i : Nat)
  /-- The timer of job `k` fires. -/
  | job (k : Nat)

variable {E : Externals} (T : Scheme E) (patterns : List Bytes) (plan : Request → Plan)

/-- The plan for the request that a read brings to a handler. -/
def planned (e : ErrorCode) (bytes : Bytes) (s : Session E.parser.State) : Option Plan :=
  (T.presented e bytes { s with reads := s.reads - 1 }).bind (fun c =>
    (routed patterns c.conn.request.url).map (fun _ => plan c.conn.request))

/-- The activities of connection `i` one after the other, unless the program ends. -/
def follow (s : System E.parser.State) (i : Nat) : List Activity → System E.parser.State
  | [] => s
  | a :: as =>
    match System.step T s (.connection i a) with
    | some t => follow t i as
    | none => s

/-- `_handle_post`: the answer is given, and with the handler its copy of the connection goes. -/
def handlePost (s : System E.parser.State) (i : Nat) (a : Answer) : System E.parser.State :=
  follow T s i ((a.ops ++ [HandlerOp.notifyAsyncReplyDone]).map Activity.handler ++ [.release])

def start (tag : Bytes) (junk : Uninitialised) (regs : List (Bytes × UInt64)) :
    Desk E.parser.State :=
  ⟨System.start T tag junk regs, []⟩

def step (d : Desk E.parser.State) : Event → Option (Desk E.parser.State)
  | .accept n e junk =>
    (System.step T d.system (.accept n e junk)).map (fun s => { d with system := s })
  | .read i e bytes => (d.system.peer i).bind (fun p =>
      let x := planned T patterns plan e bytes p.session
      let r := x.elim ⟨[], 0, false⟩ Plan.reaction
      (System.step T d.system (.connection i (.read e bytes r))).map (fun s =>
        ⟨s, d.jobs ++ (x.elim [] Plan.jobs).map (fun a => (i, a))⟩))
  | .complete i ev =>
    (System.step T d.system (.connection i (.complete ev))).map (fun s => { d with system := s })
  | .shutdown i =>
    (System.step T d.system (.connection i .shutdown)).map (fun s => { d with system := s })
  | .job k =>
    if d.system.stopped.isSome then none
    else (d.jobs[k]?).map (fun j => ⟨handlePost T d.system j.1 j.2, d.jobs.eraseIdx k⟩)

/-- The answers that connection `i` is still to be given. -/
def jobsOf (d : Desk E.parser.State) (i : Nat) : List Answer :=
  (d.jobs.filter (fun j => j.1 == i)).map Prod.snd

end Desk

/-! ## Requests and their answers -/

/-- A request is followed by its answer before the next read, a read that has been refused by a
400, and there is no other reply. The state is the answer that is owed. -/
def answering (expected : Request → Option Answer) : Monitor Obs (Option Answer) where
  next
    | _, .dispatched r => expected r
    | owed, .parsed received nparsed => if received = nparsed then owed else some .badRequest
    | _, .replying _ => none
    | owed, _ => owed
  ok
    | owed, .dispatched _ | owed, .parsed _ _ => owed = none
    | owed, .replying reply => ∃ a, owed = some a ∧ a.Fits reply
    | _, _ => True

end CsiHttp.Service

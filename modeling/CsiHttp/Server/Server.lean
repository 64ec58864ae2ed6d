import CsiHttp.Utils.UriPattern
import CsiHttp.Server.Session

/-!
# `server`: handlers, dispatch and request counts

`server` is a template over its connection type, and so is the model. A handler may do
anything to the connection it is given and may end with an exception; either way the
request has been counted before it is called.
-/
set_option linter.dupNamespace false

namespace CsiHttp.Server

open Lib Lib.Text

universe u

/-- What `server` uses of its connection type. -/
class ConnectionType (Conn : Type u) where
  /-- `connection->request().url()`. -/
  url : Conn → Bytes
  /-- `connection->reply().create(csi::http::not_found)`. -/
  createNotFound : Conn → Conn

/-- How a handler ends, with the connection as it leaves it. -/
inductive Outcome (Conn : Type u) where
  | returned (c : Conn)
  | threw (c : Conn)
  deriving DecidableEq

/-- `server::handler`. -/
abbrev Handler (Conn : Type u) := List Bytes → Conn → Outcome Conn

/-- `server::handler_data`. -/
structure HandlerData (Conn : Type u) where
  pattern : UriPattern
  handler : Handler Conn
  nrOfRequests : UInt64

namespace HandlerData

variable {Conn : Type u}

/-- The constructor sets the pattern and the handler; the counter keeps what the memory held. -/
def new (pattern : Bytes) (h : Handler Conn) (memory : UInt64) : HandlerData Conn :=
  ⟨.new pattern, h, memory⟩

/-- `handler_data::match`. -/
def accepts (d : HandlerData Conn) (uri : List Bytes) : Bool := d.pattern.accepts uri

/-- `handler_data::call`. -/
def call (d : HandlerData Conn) (uri : List Bytes) (c : Conn) : HandlerData Conn × Outcome Conn :=
  let d := { d with nrOfRequests := d.nrOfRequests + 1 }
  (d, d.handler uri c)

end HandlerData

/-- The data of `server`: the handlers in the order of their registration. -/
structure Server (Conn : Type u) where
  handlers : List (HandlerData Conn)

namespace Server

variable {Conn : Type u}

/-- `server::server`. -/
def new : Server Conn := ⟨[]⟩

/-- `server::add_handler`. -/
def addHandler (s : Server Conn) (pattern : Bytes) (p : Handler Conn) (memory : UInt64) :
    Server Conn :=
  ⟨s.handlers ++ [.new pattern p memory]⟩

/-- The loop of `handle_request`; `none` when it runs to the end. -/
def callFirst (parts : List Bytes) (c : Conn) :
    List (HandlerData Conn) → Option (List (HandlerData Conn) × Outcome Conn)
  | [] => none
  | d :: ds =>
    if d.accepts parts then some ((d.call parts c).1 :: ds, (d.call parts c).2)
    else (callFirst parts c ds).map fun r => (d :: r.1, r.2)

/-- `server::get_no_of_requests`. -/
def getNoOfRequests (s : Server Conn) (pattern : Bytes) : UInt64 :=
  s.handlers.foldl (fun result d =>
    if d.accepts (split pattern) then result + d.nrOfRequests else result) 0

/-- The default argument of `get_no_of_requests`. -/
def anyPattern : Bytes := ascii "#"

section Requests

variable [ConnectionType Conn]

/-- `server::handle_request`. -/
def handleRequest (s : Server Conn) (c : Conn) : Server Conn × Outcome Conn :=
  match callFirst (split (ConnectionType.url c)) c s.handlers with
  | some (handlers, outcome) => (⟨handlers⟩, outcome)
  | none => (s, .returned (ConnectionType.createNotFound c))

/-! ## Runs -/

/-- A call made on a server. -/
inductive Call (Conn : Type u) where
  | addHandler (pattern : Bytes) (p : Handler Conn) (memory : UInt64)
  | handleRequest (c : Conn)

def perform (s : Server Conn) : Call Conn → Server Conn
  | .addHandler pattern p memory => s.addHandler pattern p memory
  | .handleRequest c => (s.handleRequest c).1

def run (s : Server Conn) (calls : List (Call Conn)) : Server Conn := calls.foldl perform s

/-- The pattern to whose handler a request for `url` goes, when `patterns` are registered. -/
def target (patterns : List UriPattern) (url : Bytes) : Option UriPattern :=
  patterns.find? (fun p => p.accepts (split url))

/-- The patterns of the handlers that the calls dispatch to, one for each dispatch. -/
def dispatches (patterns : List UriPattern) : List (Call Conn) → List UriPattern
  | [] => []
  | .addHandler pattern _ _ :: calls => dispatches (patterns ++ [.new pattern]) calls
  | .handleRequest c :: calls =>
    (target patterns (ConnectionType.url c)).toList ++ dispatches patterns calls

/-- How many requests are dispatched to a handler whose pattern matches the segments of `q`. -/
def dispatched (calls : List (Call Conn)) (q : Bytes) : Nat :=
  (dispatches [] calls).countP (fun p => p.accepts (split q))

end Requests

/-- What the memory of the counters held, summed over the handlers registered by the calls
whose pattern matches the segments of `q`. -/
def leftover (q : Bytes) : List (Call Conn) → UInt64
  | [] => 0
  | .addHandler pattern _ memory :: calls =>
    if (UriPattern.new pattern).accepts (split q) then memory + leftover q calls
    else leftover q calls
  | .handleRequest _ :: calls => leftover q calls

/-! ## Counting -/

/-- The sum that `get_no_of_requests` forms. -/
def counted (parts : List Bytes) : List (HandlerData Conn) → UInt64
  | [] => 0
  | d :: ds => (if d.accepts parts then d.nrOfRequests else 0) + counted parts ds

theorem foldl_counted (parts : List Bytes) (ds : List (HandlerData Conn)) (result : UInt64) :
    ds.foldl (fun result d => if d.accepts parts then result + d.nrOfRequests else result) result
      = result + counted parts ds := by
  induction ds generalizing result with
  | nil => exact (UInt64.add_zero result).symm
  | cons d ds ih =>
    rw [List.foldl_cons, ih, counted]
    by_cases h : d.accepts parts
    · rw [if_pos h, if_pos h, UInt64.add_assoc]
    · rw [if_neg h, if_neg h, UInt64.zero_add]

theorem getNoOfRequests_eq (s : Server Conn) (q : Bytes) :
    s.getNoOfRequests q = counted (split q) s.handlers := by
  rw [getNoOfRequests, foldl_counted, UInt64.zero_add]

theorem counted_append (parts : List Bytes) (ds ds' : List (HandlerData Conn)) :
    counted parts (ds ++ ds') = counted parts ds + counted parts ds' := by
  induction ds with
  | nil => exact (UInt64.zero_add _).symm
  | cons d ds ih => rw [List.cons_append, counted, counted, ih, UInt64.add_assoc]

/-- The patterns of a list of handlers. -/
def patterns (ds : List (HandlerData Conn)) : List UriPattern := ds.map HandlerData.pattern

/-- The loop calls the handler of the first pattern that accepts, counts that call in it and
leaves every other handler alone. -/
theorem callFirst_spec (parts : List Bytes) (c : Conn) (ds : List (HandlerData Conn)) :
    match callFirst parts c ds with
    | none => ∀ d ∈ ds, d.accepts parts = false
    | some (ds', o) => ∃ before d after, ds = before ++ d :: after ∧
        (∀ b ∈ before, b.accepts parts = false) ∧ d.accepts parts = true ∧
        ds' = before ++ { d with nrOfRequests := d.nrOfRequests + 1 } :: after ∧
        o = d.handler parts c := by
  induction ds with
  | nil => exact fun d hd => absurd hd List.not_mem_nil
  | cons d ds ih =>
    rw [callFirst]
    by_cases h : d.accepts parts
    · rw [if_pos h]
      exact ⟨[], d, ds, rfl, fun b hb => absurd hb List.not_mem_nil, h, rfl, rfl⟩
    · rw [if_neg h]
      have hd : d.accepts parts = false := Bool.not_eq_true _ ▸ h
      cases hr : callFirst parts c ds with
      | none =>
        rw [hr] at ih
        exact List.forall_mem_cons.mpr ⟨hd, ih⟩
      | some r =>
        rw [hr] at ih
        obtain ⟨before, e, after, rfl, hbefore, he, hds, ho⟩ := ih
        refine ⟨d :: before, e, after, rfl, List.forall_mem_cons.mpr ⟨hd, hbefore⟩, he, ?_, ho⟩
        rw [List.cons_append, ← hds]

/-- The loop leaves the patterns as they are, and adds one to the sum for `q` exactly when the
pattern it calls matches the segments of `q`. -/
theorem callFirst_counted {parts : List Bytes} {c : Conn} {ds ds' : List (HandlerData Conn)}
    {o : Outcome Conn} (h : callFirst parts c ds = some (ds', o)) (q : List Bytes) :
    patterns ds' = patterns ds ∧
      ∃ p, (patterns ds).find? (fun p => p.accepts parts) = some p ∧
        counted q ds' = counted q ds + if p.accepts q then 1 else 0 := by
  have hspec := callFirst_spec parts c ds
  rw [h] at hspec
  obtain ⟨before, d, after, rfl, hbefore, hd, rfl, -⟩ := hspec
  refine ⟨by simp [patterns], d.pattern, ?_, ?_⟩
  · rw [patterns, List.map_append, List.map_cons, List.find?_append, List.find?_eq_none.mpr]
    · rw [Option.none_or]
      exact List.find?_cons_of_pos hd
    · intro p hp
      obtain ⟨b, hb, rfl⟩ := List.mem_map.mp hp
      exact Bool.not_eq_true _ ▸ hbefore b hb
  · rw [counted_append, counted_append, counted, counted]
    simp only [HandlerData.accepts]
    by_cases hq : d.pattern.accepts q
    · simp only [hq, if_true]
      ac_rfl
    · simp only [hq, if_false, Bool.false_eq_true]
      ac_rfl

theorem callFirst_none {parts : List Bytes} {c : Conn} {ds : List (HandlerData Conn)}
    (h : callFirst parts c ds = none) :
    (patterns ds).find? (fun p => p.accepts parts) = none := by
  have hspec := callFirst_spec parts c ds
  rw [h] at hspec
  apply List.find?_eq_none.mpr
  intro p hp
  obtain ⟨d, hd, rfl⟩ := List.mem_map.mp hp
  exact Bool.not_eq_true _ ▸ hspec d hd

section Requests

variable [ConnectionType Conn]

/-- One request: the patterns stay, and the sum for `q` goes up by one exactly when the pattern
it is dispatched to matches the segments of `q`. -/
theorem handleRequest_counted (s : Server Conn) (c : Conn) (q : List Bytes) :
    patterns (s.handleRequest c).1.handlers = patterns s.handlers ∧
      counted q (s.handleRequest c).1.handlers = counted q s.handlers +
        UInt64.ofNat ((target (patterns s.handlers) (ConnectionType.url c)).toList.countP
          (fun p => p.accepts q)) := by
  unfold handleRequest target
  cases h : callFirst (split (ConnectionType.url c)) c s.handlers with
  | none =>
    rw [callFirst_none h]
    exact ⟨rfl, (UInt64.add_zero _).symm⟩
  | some r =>
    obtain ⟨hpatterns, p, hp, hcounted⟩ := callFirst_counted h q
    rw [hp]
    refine ⟨hpatterns, hcounted.trans ?_⟩
    by_cases hq : p.accepts q
    · rw [if_pos hq, Option.toList_some, List.countP_singleton, if_pos hq]
      rfl
    · rw [if_neg hq, Option.toList_some, List.countP_singleton, if_neg hq]
      rfl

/-- The law of a run: every counter holds what its memory held and one for each dispatch. -/
theorem run_counted (s : Server Conn) (calls : List (Call Conn)) (q : Bytes) :
    counted (split q) (s.run calls).handlers = counted (split q) s.handlers + leftover q calls +
      UInt64.ofNat ((dispatches (patterns s.handlers) calls).countP
        (fun p => p.accepts (split q))) := by
  induction calls generalizing s with
  | nil => simp [run, leftover, dispatches]
  | cons call calls ih =>
    rw [run, List.foldl_cons]
    refine (ih (s.perform call)).trans ?_
    cases call with
    | addHandler pattern p memory =>
      have hpatterns : patterns (s.addHandler pattern p memory).handlers
          = patterns s.handlers ++ [.new pattern] := List.map_append
      rw [perform, hpatterns, dispatches, addHandler, counted_append, leftover, counted, counted]
      by_cases hq : (UriPattern.new pattern).accepts (split q)
      · rw [if_pos hq, if_pos (show (HandlerData.new pattern p memory).accepts (split q) from hq),
          UInt64.add_zero, HandlerData.new, ← UInt64.add_assoc (counted _ _)]
      · rw [if_neg hq, if_neg (show ¬ (HandlerData.new pattern p memory).accepts (split q) from hq),
          UInt64.add_zero, UInt64.add_zero]
    | handleRequest c =>
      obtain ⟨hpatterns, hcounted⟩ := handleRequest_counted s c (split q)
      rw [perform, hpatterns, hcounted, dispatches, leftover, List.countP_append, UInt64.ofNat_add]
      ac_rfl

/-- Request counting is exact as far as the memory of the counters was zero: the sum for `q` is
the number of requests dispatched to patterns that match `q` exactly when what the matching
counters were built with adds up to zero. -/
theorem noOfRequests_iff (calls : List (Call Conn)) (q : Bytes) :
    (new.run calls).getNoOfRequests q = UInt64.ofNat (dispatched calls q) ↔ leftover q calls = 0 := by
  have hrun : (new.run calls).getNoOfRequests q
      = leftover q calls + UInt64.ofNat (dispatched calls q) := by
    rw [getNoOfRequests_eq, run_counted]
    exact congrArg (· + _) (UInt64.zero_add _)
  rw [hrun]
  exact UInt64.add_eq_right

end Requests

/-- The connections of the repository. -/
instance (State : Type) : ConnectionType (Session State) where
  url s := s.conn.request.url
  createNotFound s := s.takeReply (s.conn.reply.create .notFound Reply.textHtml 0)

/-- A handler registered in memory that was not zero is not counted from zero. -/
theorem noOfRequests_not_exact :
    ¬ ∀ (calls : List (Call (Session Unit))) (q : Bytes),
      (new.run calls).getNoOfRequests q = UInt64.ofNat (dispatched calls q) := by
  intro h
  have hcount := h [.addHandler (ascii "/rest/avro_sample") (fun _ c => .returned c) 7]
    (ascii "/rest/avro_sample")
  revert hcount
  decide

end Server

end CsiHttp.Server

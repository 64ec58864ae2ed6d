import CsiHttp.Utils.PatternLanguage
import CsiHttp.Server.Server

/-!
# First match

The handlers of a server are the registrations made by the calls so far, in their order, and
the handler of a url is the earliest one whose pattern has the url in its language.
-/
set_option linter.dupNamespace false

namespace CsiHttp.Server

open Lib Lib.Text

universe u

variable {Conn : Type u}

/-- The count of one call. -/
def HandlerData.count (d : HandlerData Conn) : HandlerData Conn :=
  { d with nrOfRequests := d.nrOfRequests + 1 }

namespace Server

/-- A pattern and the handler that was registered under it. -/
abbrev Registration (Conn : Type u) := Bytes × Handler Conn

/-- What the calls register, in their order. -/
def registered : List (Call Conn) → List (Registration Conn)
  | [] => []
  | .addHandler pattern p _ :: calls => (pattern, p) :: registered calls
  | .handleRequest _ :: calls => registered calls

/-- The registration that has the url, when there is one. -/
def route (rs : List (Registration Conn)) (url : Bytes) : Option (Registration Conn) :=
  rs.find? (fun r => (UriPattern.new r.1).accepts (split url))

/-- The url is in the language of the pattern of a registration. -/
def Registration.Serves (r : Registration Conn) (url : Bytes) : Prop :=
  UriPattern.Matches (split r.1) (split url)

theorem serves_iff (r : Registration Conn) (url : Bytes) :
    r.Serves url ↔ (UriPattern.new r.1).accepts (split url) = true :=
  (UriPattern.accepts_iff r.1 (split url)).symm

theorem registered_append (calls more : List (Call Conn)) :
    registered (calls ++ more) = registered calls ++ registered more := by
  induction calls with
  | nil => rfl
  | cons call calls ih =>
    cases call with
    | addHandler pattern p memory =>
      rw [List.cons_append, registered, registered, ih, List.cons_append]
    | handleRequest c => rw [List.cons_append, registered, registered, ih]

/-- A route is the first registration that serves the url. -/
theorem route_eq_some_iff (rs : List (Registration Conn)) (url : Bytes) (r : Registration Conn) :
    route rs url = some r ↔ ∃ before after, rs = before ++ r :: after ∧
      (∀ b ∈ before, ¬ b.Serves url) ∧ r.Serves url := by
  simp only [route, List.find?_eq_some_iff_append, serves_iff, Bool.not_eq_true,
    Bool.not_eq_eq_eq_not, Bool.not_true]
  constructor
  · intro hfound
    obtain ⟨hr, before, after, hrs, hbefore⟩ := hfound
    exact ⟨before, after, hrs, hbefore, hr⟩
  · intro hsplit
    obtain ⟨before, after, hrs, hbefore, hr⟩ := hsplit
    exact ⟨hr, before, after, hrs, hbefore⟩

theorem route_eq_none_iff (rs : List (Registration Conn)) (url : Bytes) :
    route rs url = none ↔ ∀ r ∈ rs, ¬ r.Serves url := by
  simp only [route, List.find?_eq_none, serves_iff]

/-- Later registrations do not take a url away. -/
theorem route_append {rs : List (Registration Conn)} {url : Bytes} {r : Registration Conn}
    (h : route rs url = some r) (more : List (Registration Conn)) :
    route (rs ++ more) url = some r := by
  unfold route at h ⊢
  rw [List.find?_append, h, Option.some_or]

/-- The handlers of a server stand for these registrations. -/
def Registers (ds : List (HandlerData Conn)) (rs : List (Registration Conn)) : Prop :=
  ds.map (fun d => (d.pattern, d.handler)) = rs.map (fun r => (UriPattern.new r.1, r.2))

/-- Counting a call changes neither patterns nor handlers. -/
theorem registers_modify (ds : List (HandlerData Conn)) (i : Nat) :
    (ds.modify i HandlerData.count).map (fun d => (d.pattern, d.handler))
      = ds.map (fun d => (d.pattern, d.handler)) := by
  induction ds generalizing i with
  | nil => rw [List.modify_nil]
  | cons d ds ih =>
    cases i with
    | zero => rfl
    | succ i => rw [List.modify_succ_cons, List.map_cons, List.map_cons, ih]

/-- The loop of `handle_request`, in terms of registrations: the first one that serves the url
is called, and its counter alone goes up. -/
theorem callFirst_eq {ds : List (HandlerData Conn)} {rs : List (Registration Conn)}
    (h : Registers ds rs) (url : Bytes) (c : Conn) :
    (∃ before r after, rs = before ++ r :: after ∧ (∀ b ∈ before, ¬ b.Serves url) ∧ r.Serves url ∧
        callFirst (split url) c ds
          = some (ds.modify before.length HandlerData.count, r.2 (split url) c)) ∨
      ((∀ r ∈ rs, ¬ r.Serves url) ∧ callFirst (split url) c ds = none) := by
  induction ds generalizing rs with
  | nil =>
    have hrs : rs = [] := List.map_eq_nil_iff.mp h.symm
    subst hrs
    exact Or.inr ⟨fun r hr => absurd hr List.not_mem_nil, rfl⟩
  | cons d ds ih =>
    obtain ⟨r, rs, rfl, hhead, htail⟩ := List.map_eq_cons_iff.mp h.symm
    obtain ⟨hpattern, hhandler⟩ := Prod.mk.injEq .. ▸ hhead
    have hserves : r.Serves url ↔ d.accepts (split url) = true := by
      rw [serves_iff, hpattern, HandlerData.accepts]
    rw [callFirst]
    by_cases hd : d.accepts (split url)
    · refine Or.inl ⟨[], r, rs, rfl, fun b hb => absurd hb List.not_mem_nil, hserves.mpr hd, ?_⟩
      rw [if_pos hd, HandlerData.call, hhandler]
      rfl
    · rw [if_neg hd]
      obtain ⟨before, r', after, rfl, hbefore, hr', hcall⟩ | ⟨hnone, hcall⟩ := ih htail.symm
      · refine Or.inl ⟨r :: before, r', after, rfl, ?_, hr', ?_⟩
        · exact List.forall_mem_cons.mpr ⟨hserves.not.mpr hd, hbefore⟩
        · rw [hcall, List.length_cons, List.modify_succ_cons]
          rfl
      · refine Or.inr ⟨List.forall_mem_cons.mpr ⟨hserves.not.mpr hd, hnone⟩, ?_⟩
        rw [hcall]
        rfl

section Requests

variable [ConnectionType Conn]

/-- A request keeps what the handlers stand for. -/
theorem handleRequest_registers {s : Server Conn} {rs : List (Registration Conn)}
    (h : Registers s.handlers rs) (c : Conn) : Registers (s.handleRequest c).1.handlers rs := by
  unfold handleRequest
  obtain ⟨before, r, after, -, -, -, hcall⟩ | ⟨-, hcall⟩ := callFirst_eq h (ConnectionType.url c) c
  · rw [hcall]
    exact (registers_modify _ _).trans h
  · rw [hcall]
    exact h

theorem run_registers {s : Server Conn} {rs : List (Registration Conn)}
    (h : Registers s.handlers rs) (calls : List (Call Conn)) :
    Registers (s.run calls).handlers (rs ++ registered calls) := by
  induction calls generalizing s rs with
  | nil => rwa [registered, List.append_nil]
  | cons call calls ih =>
    cases call with
    | addHandler pattern p memory =>
      have hadd : Registers (s.addHandler pattern p memory).handlers (rs ++ [(pattern, p)]) := by
        unfold Registers addHandler
        rw [List.map_append, List.map_append, h]
        rfl
      have hrun := ih hadd
      rwa [List.append_assoc] at hrun
    | handleRequest c => exact ih (handleRequest_registers h c)

theorem new_run_registers (calls : List (Call Conn)) :
    Registers (new.run calls).handlers (registered calls) :=
  run_registers (show Registers new.handlers [] from rfl) calls

/-- Dispatch is first match and stable, whatever was called before: the earliest registration
that serves the url gets its segments and the connection, its counter goes up and no other, and
it keeps the url under any further calls. Without one, nothing is called or counted and the
reply is a 404. -/
theorem handleRequest_firstMatch (calls : List (Call Conn)) (c : Conn) :
    [47].intercalate (split (ConnectionType.url c)) = ConnectionType.url c ∧
    ((∃ before r after, registered calls = before ++ r :: after ∧
        (∀ b ∈ before, ¬ b.Serves (ConnectionType.url c)) ∧ r.Serves (ConnectionType.url c) ∧
        (new.run calls).handleRequest c
          = (⟨(new.run calls).handlers.modify before.length HandlerData.count⟩,
              r.2 (split (ConnectionType.url c)) c) ∧
        ∀ (more : List (Call Conn)) (c' : Conn), ConnectionType.url c' = ConnectionType.url c →
          ((new.run (calls ++ more)).handleRequest c').2 = r.2 (split (ConnectionType.url c)) c') ∨
      ((∀ r ∈ registered calls, ¬ r.Serves (ConnectionType.url c)) ∧
        (new.run calls).handleRequest c
          = (new.run calls, .returned (ConnectionType.createNotFound c)))) := by
  refine ⟨List.intercalate_splitOn 47, ?_⟩
  obtain ⟨before, r, after, hrs, hbefore, hr, hcall⟩ | ⟨hnone, hcall⟩ :=
    callFirst_eq (new_run_registers calls) (ConnectionType.url c) c
  · refine Or.inl ⟨before, r, after, hrs, hbefore, hr, by rw [handleRequest, hcall], ?_⟩
    intro more c' hurl
    have hroute := (route_eq_some_iff _ _ r).mpr ⟨before, after, hrs, hbefore, hr⟩
    have hmore := route_append hroute (registered more)
    rw [← registered_append] at hmore
    obtain ⟨before', r', after', hrs', hbefore', hr', hcall'⟩ | ⟨hnone, -⟩ :=
      callFirst_eq (new_run_registers (calls ++ more)) (ConnectionType.url c) c'
    · have hsame := (route_eq_some_iff _ _ r').mpr ⟨before', after', hrs', hbefore', hr'⟩
      rw [hmore] at hsame
      rw [handleRequest, hurl, hcall', ← Option.some.inj hsame]
    · rw [(route_eq_none_iff _ _).mpr hnone] at hmore
      cases hmore
  · exact Or.inr ⟨hnone, by rw [handleRequest, hcall]⟩

end Requests

/-! ## The default count -/

/-- The registrations that `get_no_of_requests()` leaves out: it takes its pattern `#` for a
url of one segment, which only the handlers under `#` and `+` accept. -/
def Registration.missed (r : Registration Conn) : Bool :=
  r.1 != UriPattern.hash && r.1 != UriPattern.plus

theorem accepts_anyPattern (r : Registration Conn) :
    (UriPattern.new r.1).accepts (split anyPattern) = !r.missed := by
  rw [show split anyPattern = [UriPattern.hash] from by decide, Bool.eq_iff_iff,
    UriPattern.accepts_hash_iff, Registration.missed]
  simp only [Bool.not_and, Bool.or_eq_true, Bool.not_eq_true', bne_eq_false_iff_eq]

theorem patterns_of_registers {ds : List (HandlerData Conn)} {rs : List (Registration Conn)}
    (h : Registers ds rs) : patterns ds = rs.map (fun r => UriPattern.new r.1) := by
  have hfst := congrArg (List.map Prod.fst) h
  rwa [List.map_map, List.map_map] at hfst

theorem target_map (rs : List (Registration Conn)) (url : Bytes) :
    target (rs.map (fun r => UriPattern.new r.1)) url
      = (route rs url).map (fun r => UriPattern.new r.1) := by
  rw [target, route, List.find?_map]
  rfl

theorem leftover_requests (q : Bytes) (cs : List Conn) :
    leftover q (cs.map Call.handleRequest) = 0 := by
  induction cs with
  | nil => rfl
  | cons c cs ih => exact ih

section DefaultCount

variable [ConnectionType Conn]

/-- The registrations that a list of requests goes to, one for each dispatch. -/
def dispatchedTo (rs : List (Registration Conn)) (cs : List Conn) : List (Registration Conn) :=
  cs.filterMap (fun c => route rs (ConnectionType.url c))

/-- The patterns that requests are dispatched to are those of the registrations they go to. -/
theorem dispatches_requests (rs : List (Registration Conn)) (cs : List Conn) :
    dispatches (rs.map (fun r => UriPattern.new r.1)) (cs.map Call.handleRequest)
      = (dispatchedTo rs cs).map (fun r => UriPattern.new r.1) := by
  induction cs with
  | nil => rfl
  | cons c cs ih =>
    rw [List.map_cons, dispatches, ih, target_map]
    unfold dispatchedTo
    rw [List.filterMap_cons]
    cases route rs (ConnectionType.url c) with
    | none => rfl
    | some r => rfl

/-- Between two readings the default count grows by the dispatches it does not leave out. -/
theorem increase_eq (calls : List (Call Conn)) (cs : List Conn) :
    ((new.run calls).run (cs.map .handleRequest)).getNoOfRequests anyPattern
      = (new.run calls).getNoOfRequests anyPattern + UInt64.ofNat
          ((dispatchedTo (registered calls) cs).countP (fun r => !r.missed)) := by
  rw [getNoOfRequests_eq, getNoOfRequests_eq, run_counted, leftover_requests, UInt64.add_zero,
    patterns_of_registers (new_run_registers calls), dispatches_requests, List.countP_map]
  simp only [Function.comp_def, accepts_anyPattern]

/-- The default request count is the total exactly when the dispatches it leaves out, those to
handlers under patterns other than `#` and `+`, come to zero in the type of the counter. -/
theorem increase_total_iff (calls : List (Call Conn)) (cs : List Conn) :
    ((new.run calls).run (cs.map .handleRequest)).getNoOfRequests anyPattern
        - (new.run calls).getNoOfRequests anyPattern
        = UInt64.ofNat (dispatchedTo (registered calls) cs).length ↔
      (dispatchedTo (registered calls) cs).countP Registration.missed % 18446744073709551616
        = 0 := by
  have hlength : (dispatchedTo (registered calls) cs).length
      = (dispatchedTo (registered calls) cs).countP Registration.missed
        + (dispatchedTo (registered calls) cs).countP (fun r => !r.missed) := by
    rw [List.length_eq_countP_add_countP Registration.missed]
    simp only [Bool.not_eq_true, Bool.decide_eq_false]
  rw [increase_eq, UInt64.add_comm, UInt64.add_sub_cancel, hlength, UInt64.ofNat_add, eq_comm,
    UInt64.add_eq_right, UInt64.ofNat_eq_iff_mod_eq_toNat]
  rfl

/-- One request to a handler under a literal pattern is not in the default count. -/
theorem increase_not_total :
    ¬ ∀ (calls : List (Call (Session Unit))) (cs : List (Session Unit)),
      ((new.run calls).run (cs.map .handleRequest)).getNoOfRequests anyPattern
          - (new.run calls).getNoOfRequests anyPattern
        = UInt64.ofNat (dispatchedTo (registered calls) cs).length := by
  intro h
  let conn := Connection.new (ascii "request_id") .zero ()
  let asked : Session Unit :=
    .new { conn with request := { conn.request with url := ascii "/rest/avro_sample" } }
  have hcount := h [.addHandler (ascii "/rest/avro_sample") (fun _ c => .returned c) 0] [asked]
  revert hcount
  decide

end DefaultCount

end Server

end CsiHttp.Server

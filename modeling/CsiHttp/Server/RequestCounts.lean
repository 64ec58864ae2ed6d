import Mathlib.Data.UInt
import CsiHttp.Utils.PatternInclusion
import CsiHttp.Server.Routing

/-!
# What a count of requests adds up

`get_no_of_requests` takes the text of a pattern for the segments of a url. That the text decides
about inclusion makes its result a sum over all handlers under patterns at least as general.
-/
set_option linter.dupNamespace false

namespace CsiHttp.Server

open Lib.Text

universe u

variable {Conn : Type u}

namespace Server

/-- The handlers that `get_no_of_requests` adds up. -/
def countedHandlers (s : Server Conn) (q : Bytes) : List (HandlerData Conn) :=
  s.handlers.filter (fun d => d.accepts (split q))

theorem counted_eq_sum (parts : List Bytes) (ds : List (HandlerData Conn)) :
    counted parts ds = ((ds.filter (fun d => d.accepts parts)).map HandlerData.nrOfRequests).sum := by
  induction ds with
  | nil => rfl
  | cons d ds ih =>
    rw [counted, ih, List.filter_cons]
    by_cases h : d.accepts parts
    · rw [if_pos h, if_pos h, List.map_cons, List.sum_cons]
    · rw [if_neg h, if_neg h, UInt64.zero_add]

/-- Every handler was registered under the text of its pattern. -/
theorem exists_pattern {ds : List (HandlerData Conn)} {rs : List (Registration Conn)}
    (h : Registers ds rs) {d : HandlerData Conn} (hd : d ∈ ds) :
    ∃ p : Bytes, d.pattern = .new p := by
  have hmem : (d.pattern, d.handler) ∈ ds.map (fun d => (d.pattern, d.handler)) :=
    List.mem_map_of_mem hd
  rw [h] at hmem
  obtain ⟨r, -, hr⟩ := List.mem_map.mp hmem
  exact ⟨r.1, (congrArg Prod.fst hr).symm⟩

/-- A registration has its handler in the place of its call. -/
theorem handler_of_registration {ds : List (HandlerData Conn)} {rs : List (Registration Conn)}
    (h : Registers ds rs) {i : Nat} {r : Registration Conn} (hr : rs[i]? = some r) :
    ∃ d, ds[i]? = some d ∧ d.pattern = .new r.1 ∧ d.handler = r.2 := by
  have hget := congrArg (fun l => l[i]?) h
  simp only [List.getElem?_map, hr, Option.map_some] at hget
  obtain ⟨d, hd, heq⟩ := Option.map_eq_some_iff.mp hget
  exact ⟨d, hd, congrArg Prod.fst heq, congrArg Prod.snd heq⟩

variable [ConnectionType Conn]

/-- Matching a pattern's own text decides inclusion: a pattern matches the text of one that does
not end in `#` exactly if it accepts every url that the other accepts, and every pattern matches
its own text. So `get_no_of_requests` adds up the handlers whose pattern covers its argument,
those registered under the argument itself among them. -/
theorem inclusion_decided (calls : List (Call Conn)) (p q : Bytes) :
    ((split q).getLast? ≠ some UriPattern.hash →
      ((UriPattern.new p).accepts (split q) = true ↔
        (UriPattern.new p).Covers (UriPattern.new q))) ∧
    (UriPattern.new p).accepts (split p) = true ∧
    (new.run calls).getNoOfRequests q
      = (((new.run calls).countedHandlers q).map HandlerData.nrOfRequests).sum ∧
    ((split q).getLast? ≠ some UriPattern.hash → ∀ d ∈ (new.run calls).handlers,
      d ∈ (new.run calls).countedHandlers q ↔ d.pattern.Covers (UriPattern.new q)) ∧
    (∀ (i : Nat) (h : Handler Conn), (registered calls)[i]? = some (q, h) →
      ∃ d, (new.run calls).handlers[i]? = some d ∧ d.handler = h ∧
        d ∈ (new.run calls).countedHandlers q) := by
  have hregisters := new_run_registers calls
  refine ⟨UriPattern.covers_iff, UriPattern.accepts_self p, ?_, ?_, ?_⟩
  · rw [getNoOfRequests_eq, counted_eq_sum, countedHandlers]
  · intro hlast d hd
    obtain ⟨own, hown⟩ := exists_pattern hregisters hd
    rw [countedHandlers, List.mem_filter, HandlerData.accepts, hown, UriPattern.covers_iff hlast]
    exact and_iff_right hd
  · intro i h hi
    obtain ⟨d, hd, hpattern, hhandler⟩ := handler_of_registration hregisters hi
    refine ⟨d, hd, hhandler, ?_⟩
    rw [countedHandlers, List.mem_filter, HandlerData.accepts, hpattern]
    exact ⟨List.mem_of_getElem? hd, UriPattern.accepts_self q⟩

/-- The pattern `/rest/+` and the narrower `/rest/x`, under which a handler is registered. -/
theorem inclusion_decided_rest :
    (UriPattern.new (ascii "/rest/+")).Covers (UriPattern.new (ascii "/rest/x")) ∧
      ∃ d ∈ (new.run [.addHandler (ascii "/rest/x") (fun _ c => .returned c) 0] :
          Server (Session Unit)).countedHandlers (ascii "/rest/x"),
        d.pattern.Covers (UriPattern.new (ascii "/rest/x")) := by
  let calls : List (Call (Session Unit)) :=
    [.addHandler (ascii "/rest/x") (fun _ c => .returned c) 0]
  obtain ⟨hcovers, -, -, hcounted, hown⟩ :=
    inclusion_decided calls (ascii "/rest/+") (ascii "/rest/x")
  obtain ⟨d, hd, -, hmem⟩ := hown 0 _ rfl
  refine ⟨(hcovers (by decide)).mp (by decide), d, hmem, ?_⟩
  exact (hcounted (by decide) d (List.mem_of_getElem? hd)).mp hmem

end Server

end CsiHttp.Server

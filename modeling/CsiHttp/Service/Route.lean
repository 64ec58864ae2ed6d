import CsiHttp.Service.Streams

/-!
# A server with one handler

The sample servers add one handler, for a path without wildcards. It gets the requests for this
path and no others.
-/
namespace CsiHttp

open Lib Lib.Text

namespace UriPattern

/-- The path has no segment that means more than itself. -/
def Plain (p : Bytes) : Prop := ∀ s ∈ split p, s ≠ plus ∧ s ≠ hash

instance (p : Bytes) : Decidable (Plain p) := by
  unfold Plain
  infer_instance

theorem matches_plain_iff {ps : List Bytes} (h : ∀ s ∈ ps, s ≠ plus ∧ s ≠ hash) (xs : List Bytes) :
    Matches ps xs ↔ xs = ps := by
  induction ps generalizing xs with
  | nil => exact matches_nil_iff xs
  | cons p ps ih =>
    obtain ⟨⟨hplus, hhash⟩, hps⟩ := List.forall_mem_cons.mp h
    cases xs with
    | nil => exact iff_of_false (not_matches_nil p ps) (List.cons_ne_nil p ps).symm
    | cons x xs =>
      rw [matches_cons fun hlast => hhash hlast.1, ih hps, List.cons.injEq]
      refine and_congr_left fun _ => ?_
      exact ⟨fun hp => (hp.resolve_left hplus).symm, fun hx => Or.inr hx.symm⟩

theorem split_injective {p u : Bytes} (h : split u = split p) : u = p := by
  have hu : [47].intercalate (split u) = u := List.intercalate_splitOn 47
  have hp : [47].intercalate (split p) = p := List.intercalate_splitOn 47
  rw [← hu, ← hp, h]

theorem accepts_plain_iff {p : Bytes} (h : Plain p) (u : Bytes) :
    (new p).accepts (split u) = true ↔ u = p := by
  rw [accepts_iff, matches_plain_iff h]
  exact ⟨split_injective, fun hu => by rw [hu]⟩

end UriPattern

namespace Service

open Lib.Runs Server

/-- `csi::http::POST`. -/
def post : Nat := 3

variable {route : Bytes}

theorem routed_route (h : UriPattern.Plain route) (url : Bytes) :
    routed [route] url = if url = route then some 0 else none := by
  unfold routed
  rw [List.findIdx?_singleton]
  simp only [UriPattern.accepts_plain_iff h]

theorem expected_route (h : UriPattern.Plain route) (plan : Request → Plan) (r : Request) :
    expected [route] plan r = if r.url = route then (plan r).answer else some .notFound := by
  unfold expected
  rw [routed_route h]
  by_cases hu : r.url = route
  · rw [if_pos hu, if_pos hu]
  · rw [if_neg hu, if_neg hu]

theorem expectedView_route (h : UriPattern.Plain route) (rule : Request.View → Plan)
    (v : Request.View) :
    expectedView [route] rule v = if v.url = route then (rule v).answer else some .notFound := by
  unfold expectedView
  rw [routed_route h]
  by_cases hu : v.url = route
  · rw [if_pos hu, if_pos hu]
  · rw [if_neg hu, if_neg hu]

/-- `POST` of a body of 26 bytes, delivered in one piece. -/
def postPieces (route body : Bytes) : MessagePieces where
  urls := [route]
  headers := [⟨[ascii "Content-Length"], [ascii "26"]⟩]
  method := post
  contentLength := 26
  body := [body]
  trailers := []
  keepAlive := true

def postBytes (route body : Bytes) : Bytes :=
  ascii "POST " ++ route ++ ascii " HTTP/1.1" ++ [13, 10] ++ ascii "Content-Length: 26" ++
    [13, 10, 13, 10] ++ body

/-- The message, as its client sends it. -/
def postSent (hroute : route ≠ []) (body : Bytes) : Sent where
  wire := postBytes route body
  target := route
  pieces := postPieces route body
  wire_ne_nil := by simp [postBytes, ascii]
  cut := ⟨List.flatten_singleton, List.forall_mem_singleton.mpr hroute⟩
  delivered := List.forall_mem_singleton.mpr (by decide)
  nulFree := List.forall_mem_singleton.mpr (by decide)
  chunked h := absurd rfl h

theorem postSent_clean (hroute : route ≠ []) (htarget : Target route) (hcut : SafelyCut [route])
    (body : Bytes) : (postSent hroute body).Clean readRooted := by
  refine ⟨?_, List.forall_mem_singleton.mpr (by decide), rfl⟩
  unfold CutWell
  exact (if_pos htarget).symm ▸ hcut

/-- What the answers given and the one still due are answers to. -/
theorem split_of_map {α β : Type} {f : α → β} {l : List α} {given : List β} {due : Option β}
    (h : l.map f = given ++ due.toList) : ∃ (done : List α) (owed : Option α),
      l = done ++ owed.toList ∧ given = done.map f ∧ due = owed.map f := by
  obtain ⟨done, last, rfl, rfl, hlast⟩ := List.map_eq_append_iff.mp h
  cases due with
  | none => exact ⟨done, none, by rw [List.map_eq_nil_iff.mp hlast]; rfl, rfl, rfl⟩
  | some b =>
    obtain ⟨a, rfl, rfl⟩ := List.map_eq_singleton_iff.mp hlast
    exact ⟨done, some a, rfl, rfl, rfl⟩

end Service

end CsiHttp

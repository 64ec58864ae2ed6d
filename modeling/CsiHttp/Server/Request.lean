import Mathlib.Data.BitVec
import CsiHttp.Http

/-!
# `request_t`

The request as the parser callbacks assemble it, with the two lazily filled caches
of the request id. The text form of a uuid is Boost's; the model takes its parser
and printer as parameters.
-/
namespace CsiHttp.Server

open Lib.Text

/-- `boost::uuids::uuid`: sixteen bytes. -/
abbrev Uuid := BitVec 128

/-- What is used of Boost.Uuid: the conversions to and from text, and the uuids that
`random_generator` gives one after the other. -/
structure Uuids where
  stringGenerator : Bytes → Option Uuid
  toString : Uuid → Bytes
  random : Nat → Uuid

/-- `request_t`. The constructor leaves `method` unassigned. -/
structure Request where
  method : Option Nat
  url : Bytes
  query : Bytes
  requestId : Bytes
  requestUuid : Uuid
  headers : List Header
  contentLength : Nat
  rxBuffer : Bytes
  deriving DecidableEq

namespace Request

/-- `request_t::reset`. -/
def reset (r : Request) : Request :=
  { r with
    requestUuid := 0
    requestId := []
    contentLength := 0
    url := []
    query := []
    headers := []
    rxBuffer := [] }

/-- `request_t::request_t`. -/
def new : Request := reset ⟨none, [], [], [], 0, [], 0, []⟩

/-- `request_t::get_header`. -/
def getHeader (r : Request) (h : Bytes) : Bytes :=
  match r.headers.find? (fun i => iequals h i.name) with
  | some i => i.value
  | none => []

/-- The default argument of `request_id` and `request_uuid`. -/
def defaultIdHeader : Bytes := ascii "request_id"

/-- Take the `k`-th random uuid for the request. -/
def drawId (U : Uuids) (r : Request) (k : Nat) : Request :=
  { r with requestUuid := U.random k, requestId := U.toString (U.random k) }

/-- `request_t::request_id` when `k` uuids have been drawn so far. -/
def fillRequestId (U : Uuids) (r : Request) (idHeader : Bytes) (k : Nat) : Request × Nat :=
  if r.requestId ≠ [] then (r, k)
  else
    let id := r.getHeader idHeader
    if id ≠ [] then
      match U.stringGenerator id with
      | some u => ({ r with requestId := id, requestUuid := u }, k)
      | none => ({ r with requestId := id, requestUuid := 0 }, k)
    else (r.drawId U k, k + 1)

/-- `request_t::request_uuid` when `k` uuids have been drawn so far. -/
def fillRequestUuid (U : Uuids) (r : Request) (idHeader : Bytes) (k : Nat) : Request × Nat :=
  if r.requestUuid ≠ 0 then (r, k)
  else
    let id := r.getHeader idHeader
    if id ≠ [] then
      match U.stringGenerator id with
      | some u => ({ r with requestId := id, requestUuid := u }, k)
      | none => ({ r with requestId := id }.drawId U k, k + 1)
    else ({ r with requestId := id }.drawId U k, k + 1)

/-- What a handler starts from, apart from the cached ids. -/
structure View where
  method : Option Nat
  url : Bytes
  query : Bytes
  headers : List Header
  body : Bytes
  deriving DecidableEq, Repr

def view (r : Request) : View := ⟨r.method, r.url, r.query, r.headers, r.rxBuffer⟩

@[simp] theorem fillRequestId_view (U : Uuids) (r : Request) (h : Bytes) (k : Nat) :
    (r.fillRequestId U h k).1.view = r.view := by
  unfold fillRequestId
  split
  · rfl
  · dsimp only
    split
    · split <;> rfl
    · rfl

@[simp] theorem fillRequestUuid_view (U : Uuids) (r : Request) (h : Bytes) (k : Nat) :
    (r.fillRequestUuid U h k).1.view = r.view := by
  unfold fillRequestUuid
  split
  · rfl
  · dsimp only
    split
    · split <;> rfl
    · rfl

end Request

end CsiHttp.Server

import CsiHttp.Server.IdHeader

/-!
# The cached id and uuid of a request

`request_id` and `request_uuid` fill two caches from a header or from the random generator,
and either may overwrite what the other has filled. The invariant is that a uuid in the cache
is the one its text stands for.
-/
namespace CsiHttp.Server

open Lib Lib.Text

/-- What Boost.Uuid promises: a uuid has a text, the text gives the uuid back, and the random
generator never gives the nil uuid. -/
structure Uuids.Faithful (U : Uuids) : Prop where
  text : ∀ u, U.toString u ≠ []
  parse : ∀ u, U.stringGenerator (U.toString u) = some u
  random : ∀ k, U.random k ≠ 0

namespace Request

/-- A call of one of the two functions, with the name of the header. -/
inductive IdCall where
  | requestId (idHeader : Bytes)
  | requestUuid (idHeader : Bytes)

/-- The request after a call, with the number of uuids drawn so far. -/
def ask (U : Uuids) (s : Request × Nat) : IdCall → Request × Nat
  | .requestId idHeader => s.1.fillRequestId U idHeader s.2
  | .requestUuid idHeader => s.1.fillRequestUuid U idHeader s.2

def asked (U : Uuids) (s : Request × Nat) (calls : List IdCall) : Request × Nat :=
  calls.foldl (ask U) s

/-- What `request_id` returns: the cached id as the call leaves it. -/
def returnedId (U : Uuids) (s : Request × Nat) (idHeader : Bytes) : Bytes :=
  (ask U s (.requestId idHeader)).1.requestId

/-- What `request_uuid` returns. -/
def returnedUuid (U : Uuids) (s : Request × Nat) (idHeader : Bytes) : Uuid :=
  (ask U s (.requestUuid idHeader)).1.requestUuid

/-- A uuid that is not nil has its text next to it. -/
def Consistent (U : Uuids) (r : Request) : Prop :=
  r.requestUuid ≠ 0 → r.requestId ≠ [] ∧ U.stringGenerator r.requestId = some r.requestUuid

variable {U : Uuids} {r : Request} {k : Nat}

theorem Unasked.consistent (h : r.Unasked) : r.Consistent U := fun hne => absurd h.2 hne

theorem drawId_consistent (hU : U.Faithful) (r : Request) (k : Nat) :
    (r.drawId U k).Consistent U :=
  fun _ => ⟨hU.text _, hU.parse _⟩

theorem fillRequestId_consistent (hU : U.Faithful) (h : r.Consistent U) (idHeader : Bytes) :
    (r.fillRequestId U idHeader k).1.Consistent U ∧
      (r.fillRequestId U idHeader k).1.requestId ≠ [] := by
  unfold fillRequestId
  by_cases hid : r.requestId = []
  · rw [if_neg (fun hne => hne hid)]
    dsimp only
    by_cases hheader : r.getHeader idHeader = []
    · rw [if_neg (fun hne => hne hheader)]
      exact ⟨drawId_consistent hU r k, hU.text _⟩
    · rw [if_pos hheader]
      cases hparse : U.stringGenerator (r.getHeader idHeader) with
      | none => exact ⟨fun hne => absurd rfl hne, hheader⟩
      | some u => exact ⟨fun _ => ⟨hheader, hparse⟩, hheader⟩
  · rw [if_pos hid]
    exact ⟨h, hid⟩

theorem fillRequestUuid_consistent (hU : U.Faithful) (h : r.Consistent U) (idHeader : Bytes) :
    (r.fillRequestUuid U idHeader k).1.Consistent U := by
  unfold fillRequestUuid
  by_cases huuid : r.requestUuid = 0
  · rw [if_neg (fun hne => hne huuid)]
    dsimp only
    by_cases hheader : r.getHeader idHeader = []
    · rw [if_neg (fun hne => hne hheader)]
      exact drawId_consistent hU _ k
    · rw [if_pos hheader]
      cases hparse : U.stringGenerator (r.getHeader idHeader) with
      | none => exact drawId_consistent hU _ k
      | some u => exact fun _ => ⟨hheader, hparse⟩
  · rw [if_pos huuid]
    exact h

/-- One call keeps the caches consistent. -/
theorem ask_consistent (hU : U.Faithful) {s : Request × Nat} (h : s.1.Consistent U)
    (call : IdCall) : (ask U s call).1.Consistent U := by
  cases call with
  | requestId idHeader => exact (fillRequestId_consistent hU h idHeader).1
  | requestUuid idHeader => exact fillRequestUuid_consistent hU h idHeader

theorem asked_consistent (hU : U.Faithful) {s : Request × Nat} (h : s.1.Consistent U)
    (calls : List IdCall) : (asked U s calls).1.Consistent U := by
  induction calls generalizing s with
  | nil => exact h
  | cons call calls ih => exact ih (ask_consistent hU h call)

/-- Once a uuid is there, no call changes anything. -/
theorem ask_of_uuid {s : Request × Nat} (h : s.1.Consistent U) (huuid : s.1.requestUuid ≠ 0)
    (call : IdCall) : ask U s call = s := by
  cases call with
  | requestId idHeader => exact fillRequestId_named (h huuid).1 idHeader
  | requestUuid idHeader => exact if_pos huuid

theorem asked_of_uuid {s : Request × Nat} (h : s.1.Consistent U) (huuid : s.1.requestUuid ≠ 0)
    (calls : List IdCall) : asked U s calls = s := by
  induction calls with
  | nil => rfl
  | cons call calls ih =>
    rw [asked, List.foldl_cons, ask_of_uuid h huuid]
    exact ih

/-- Once an id is there, `request_id` changes nothing. -/
theorem asked_of_id {s : Request × Nat} (h : s.1.requestId ≠ []) (names : List Bytes) :
    asked U s (names.map .requestId) = s := by
  induction names with
  | nil => rfl
  | cons name names ih =>
    rw [asked, List.map_cons, List.foldl_cons, ask, fillRequestId_named h]
    exact ih

/-- Request id and uuid stay consistent: whatever has been called since the reset, `request_id`
returns a non-empty text, the same one until `request_uuid` is called; a uuid in the cache has
its text there; and a uuid that `request_uuid` has returned stays, together with one text. -/
theorem ids_consistent (hU : U.Faithful) (h : r.Unasked) (calls : List IdCall) :
    (∀ idHeader, returnedId U (asked U (r, k) calls) idHeader ≠ []) ∧
    (∀ (idHeader : Bytes) (names : List Bytes) (idHeader' : Bytes),
      returnedId U (asked U (r, k) (calls ++ .requestId idHeader :: names.map .requestId)) idHeader'
        = returnedId U (asked U (r, k) calls) idHeader) ∧
    ((asked U (r, k) calls).1.requestUuid ≠ 0 →
      (asked U (r, k) calls).1.requestId ≠ [] ∧
        U.stringGenerator (asked U (r, k) calls).1.requestId
          = some (asked U (r, k) calls).1.requestUuid) ∧
    (∀ idHeader, returnedUuid U (asked U (r, k) calls) idHeader ≠ 0 →
      ∃ text, U.stringGenerator text = some (returnedUuid U (asked U (r, k) calls) idHeader) ∧
        ∀ more idHeader',
          returnedUuid U (asked U (r, k) (calls ++ .requestUuid idHeader :: more)) idHeader'
              = returnedUuid U (asked U (r, k) calls) idHeader ∧
            returnedId U (asked U (r, k) (calls ++ .requestUuid idHeader :: more)) idHeader'
              = text) := by
  have hs : (asked U (r, k) calls).1.Consistent U := asked_consistent hU h.consistent calls
  have happend : ∀ call more, asked U (r, k) (calls ++ call :: more)
      = asked U (ask U (asked U (r, k) calls) call) more :=
    fun call more => List.foldl_append
  refine ⟨fun idHeader => (fillRequestId_consistent hU hs idHeader).2, ?_, hs, ?_⟩
  · intro idHeader names idHeader'
    have hid : (ask U (asked U (r, k) calls) (.requestId idHeader)).1.requestId ≠ [] :=
      (fillRequestId_consistent hU hs idHeader).2
    rw [happend, asked_of_id hid, returnedId, ask, fillRequestId_named hid]
    rfl
  · intro idHeader huuid
    have ht := ask_consistent hU hs (.requestUuid idHeader)
    refine ⟨_, (ht huuid).2, fun more idHeader' => ?_⟩
    rw [happend, asked_of_uuid ht huuid]
    exact ⟨congrArg (fun s => s.1.requestUuid) (ask_of_uuid ht huuid _),
      congrArg (fun s => s.1.requestId) (ask_of_uuid ht huuid _)⟩

end Request

/-! ## A server for clients that send uuids -/

def hexValue (b : UInt8) : Option Nat :=
  if 48 ≤ b.toNat ∧ b.toNat ≤ 57 then some (b.toNat - 48)
  else if 65 ≤ b.toNat ∧ b.toNat ≤ 70 then some (b.toNat - 55)
  else if 97 ≤ b.toNat ∧ b.toNat ≤ 102 then some (b.toNat - 87)
  else none

/-- The uuid of a text of thirty-two digits, with dashes between them. -/
def uuidOfText (text : Bytes) : Option Uuid :=
  let digits := text.filter (· != 45)
  if digits.length = 32 then
    (digits.mapM hexValue).map fun ds => BitVec.ofNat 128 (ds.foldl (fun n d => 16 * n + d) 0)
  else none

theorem hexDigit_spec {n : Nat} (h : n < 16) :
    hexValue (hexDigit n) = some n ∧ (hexDigit n != 45) = true := by
  revert n
  decide

/-- The digits of a number to the base sixteen, the highest first, give the number back. -/
theorem foldl_digits (n m : Nat) :
    ((List.range n).map fun i => m / 16 ^ (n - 1 - i) % 16).foldl (fun v d => 16 * v + d) 0
      = m % 16 ^ n := by
  induction n generalizing m with
  | zero => simp [Nat.mod_one]
  | succ n ih =>
    have hhead : (List.range n).map (fun i => m / 16 ^ (n + 1 - 1 - i) % 16)
        = (List.range n).map fun i => m / 16 / 16 ^ (n - 1 - i) % 16 := by
      apply List.map_congr_left
      intro i hi
      have hlt : i < n := List.mem_range.mp hi
      rw [show n + 1 - 1 - i = n - 1 - i + 1 from by omega, Nat.pow_succ, Nat.mul_comm,
        Nat.div_div_eq_div_mul]
    rw [List.range_succ, List.map_append, List.foldl_append, hhead, ih]
    simp only [List.map_cons, List.map_nil, List.foldl_cons, List.foldl_nil, Nat.add_sub_cancel,
      Nat.sub_self, Nat.pow_zero, Nat.div_one]
    rw [Nat.pow_succ, Nat.mul_comm (16 ^ n), Nat.mod_mul]
    omega

theorem filter_uuidText (u : Uuid) :
    (uuidText u).filter (· != 45)
      = (List.range 32).map fun i => hexDigit (u.toNat / 16 ^ (31 - i) % 16) := by
  rw [uuidText, List.filter_flatMap, List.map_eq_flatMap]
  congr 1
  funext i
  rw [List.filter_append, List.filter_singleton, (hexDigit_spec (Nat.mod_lt _ (by decide))).2]
  split <;> rfl

theorem mapM_hexDigit {f : Nat → Nat} (h : ∀ i, f i < 16) (is : List Nat) :
    (is.map fun i => hexDigit (f i)).mapM hexValue = some (is.map f) := by
  induction is with
  | nil => rfl
  | cons i is ih => rw [List.map_cons, List.mapM_cons, (hexDigit_spec (h i)).1, ih]; rfl

theorem uuidOfText_uuidText (u : Uuid) : uuidOfText (uuidText u) = some u := by
  have hlt : u.toNat < 16 ^ 32 := u.isLt
  rw [uuidOfText, filter_uuidText, if_pos (by rw [List.length_map, List.length_range]),
    mapM_hexDigit (fun i => Nat.mod_lt _ (by decide)), Option.map_some, foldl_digits 32,
    Nat.mod_eq_of_lt hlt, BitVec.ofNat_toNat, BitVec.setWidth_eq]

/-- The uuids of a server with its own source of randomness. -/
def textUuids : Uuids :=
  ⟨uuidOfText, uuidText, fun k => 0x5f0c1a52a9d24c7e8d3b6e4f9a1b2c00#128 ||| BitVec.ofNat 128 k⟩

theorem textUuids_faithful : textUuids.Faithful where
  text u := by
    intro hnil
    have hparse := uuidOfText_uuidText u
    rw [show uuidText u = [] from hnil] at hparse
    cases hparse
  parse := uuidOfText_uuidText
  random k := by
    intro hzero
    have hbit := congrArg (fun u => u.getLsbD 10) hzero
    simp [textUuids] at hbit

namespace Request

/-- A request with a uuid, the nil uuid and a text that is no uuid among its headers. -/
def tagged : Request := { Request.new with
  headers := [⟨ascii "trace", ascii "0f9a2c4e-11d2-4c7e-8d3b-6e4f9a1b2c3d"⟩,
    ⟨ascii "parent", ascii "00000000-0000-0000-0000-000000000000"⟩,
    ⟨ascii "session", ascii "abc"⟩] }

/-- The text is taken for the id first, and the nil uuid for the uuid after it. -/
def taggedCalls : List IdCall := [.requestId (ascii "Session"), .requestUuid (ascii "Parent")]

theorem ids_consistent_tagged :
    returnedId textUuids (tagged, 0) (ascii "Session") = ascii "abc" ∧
      (asked textUuids (tagged, 0) taggedCalls).1.requestUuid = 0 ∧
      ∃ text, textUuids.stringGenerator text = some 0x0f9a2c4e11d24c7e8d3b6e4f9a1b2c3d#128 ∧
        ∀ more idHeader',
          returnedUuid textUuids (asked textUuids (tagged, 0)
              (taggedCalls ++ .requestUuid (ascii "Trace") :: more)) idHeader'
            = 0x0f9a2c4e11d24c7e8d3b6e4f9a1b2c3d#128 ∧
          returnedId textUuids (asked textUuids (tagged, 0)
              (taggedCalls ++ .requestUuid (ascii "Trace") :: more)) idHeader' = text := by
  have huuid : returnedUuid textUuids (asked textUuids (tagged, 0) taggedCalls) (ascii "Trace")
      = 0x0f9a2c4e11d24c7e8d3b6e4f9a1b2c3d#128 := by decide
  have hlaw := ids_consistent (k := 0) textUuids_faithful (r := tagged) ⟨rfl, rfl⟩ taggedCalls
  refine ⟨by decide, by decide, ?_⟩
  rw [← huuid]
  exact hlaw.2.2.2 (ascii "Trace") (by rw [huuid]; decide)

end Request

end CsiHttp.Server

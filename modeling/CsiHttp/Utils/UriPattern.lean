import CsiHttp.Lib.Text

/-!
# `uri_pattern`

A pattern is a path whose segments may be the wildcard `+`, and whose last segment may be
the catch-all `#`. The loop of `match` indexes two vectors and ends in an assertion; the
model keeps both as a failure, and they are then shown never to occur.
-/
namespace CsiHttp

open Lib.Text

/-- `boost::split(parts, s, boost::is_any_of("/"))`. -/
def split (s : Bytes) : List Bytes := s.splitOn 47

/-- `uri_pattern`. -/
structure UriPattern where
  parts : List Bytes
  catchAll : Bool
  deriving DecidableEq, Repr

namespace UriPattern

/-- `"+"`. -/
def plus : Bytes := [43]

/-- `"#"`. -/
def hash : Bytes := [35]

/-- `uri_pattern::uri_pattern`. -/
def new (str : Bytes) : UriPattern :=
  let parts := split str
  match parts.getLast? with
  | none => ⟨parts, false⟩
  | some last => if last = hash then ⟨parts.dropLast, true⟩ else ⟨parts, false⟩

/-- The loop of `match` with `k` turns to go, the next one at the index `i`. -/
def compareParts (own parts : List Bytes) : Nat → Nat → Option Bool
  | 0, _ => some true
  | k + 1, i =>
    own[i]?.bind fun p =>
      if p = plus then compareParts own parts k (i + 1)
      else parts[i]?.bind fun s =>
        if p = s then compareParts own parts k (i + 1) else some false

/-- `uri_pattern::match`; `none` is an index out of range or a failed assertion. -/
def matchParts (p : UriPattern) (parts : List Bytes) : Option Bool :=
  if p.parts.length > parts.length then some false
  else if !p.catchAll && p.parts.length != parts.length then some false
  else if p.catchAll && p.parts.length ≥ parts.length then some false
  else
    (compareParts p.parts parts p.parts.length 0).bind fun equal =>
      if !equal then some false
      else if p.parts.length == parts.length || p.catchAll then some true
      else none

/-- The loop stays inside both vectors when the pattern is not the longer one. -/
theorem compareParts_isSome {own parts : List Bytes} (h : own.length ≤ parts.length) :
    ∀ k i, i + k = own.length → (compareParts own parts k i).isSome := by
  intro k
  induction k with
  | zero => exact fun _ _ => rfl
  | succ k ih =>
    intro i hi
    have hown : i < own.length := by omega
    have hparts : i < parts.length := by omega
    have hrest := ih (i + 1) (by omega)
    rw [compareParts, List.getElem?_eq_getElem hown, Option.bind_some]
    by_cases hp : own[i] = plus
    · rw [if_pos hp]
      exact hrest
    · rw [if_neg hp, List.getElem?_eq_getElem hparts, Option.bind_some]
      by_cases hs : own[i] = parts[i]
      · rw [if_pos hs]
        exact hrest
      · rw [if_neg hs]
        rfl

/-- `match` never leaves its vectors, and its assertion holds. -/
theorem matchParts_isSome (p : UriPattern) (parts : List Bytes) : (p.matchParts parts).isSome := by
  unfold matchParts
  split
  · rfl
  rename_i hle
  split
  · rfl
  rename_i hsize
  split
  · rfl
  obtain ⟨equal, hequal⟩ :=
    Option.isSome_iff_exists.mp (compareParts_isSome (Nat.not_lt.mp hle) p.parts.length 0 (by omega))
  rw [hequal, Option.bind_some]
  cases equal with
  | false => rfl
  | true =>
    have hassert : (p.parts.length == parts.length || p.catchAll) = true := by
      cases hc : p.catchAll with
      | true => exact Bool.or_true _
      | false => simpa [hc] using hsize
    rw [hassert]
    rfl

/-- The answer of `uri_pattern::match`. -/
def accepts (p : UriPattern) (parts : List Bytes) : Bool :=
  (p.matchParts parts).get (p.matchParts_isSome parts)

example : (UriPattern.new (ascii "/rest/+/x")).accepts (split (ascii "/rest/a/x")) = true := by
  decide

example : (UriPattern.new (ascii "a/#")).accepts (split (ascii "a")) = false := by decide

end UriPattern

end CsiHttp

import Mathlib.Data.List.TakeWhile
import CsiHttp.Lib.Text

/-!
# Fixed-size character arrays as C strings

A `CharArray n` is the memory of a `char[n]`. Every write says whether it stays
inside the array. `Holds a s` relates the memory to the text built up in it: memory
of the length of the text lies at the front, a terminating zero follows, and both
read the same as C strings. A zero byte inside the text ends the C string there.
-/
namespace CsiHttp.Lib

open Text

/-- The C string at the front of some memory. -/
def cstring (s : Bytes) : Bytes := s.takeWhile (· ≠ 0)

theorem cstring_cons (b : UInt8) (s : Bytes) :
    cstring (b :: s) = if b = 0 then [] else b :: cstring s := by
  unfold cstring
  by_cases hb : b = 0 <;> simp [hb]

theorem cstring_length_le (s : Bytes) : (cstring s).length ≤ s.length :=
  (List.takeWhile_prefix _).length_le

theorem cstring_eq_self_iff {s : Bytes} : cstring s = s ↔ (0 : UInt8) ∉ s := by
  unfold cstring
  rw [List.takeWhile_eq_self_iff]
  constructor
  · intro h hm
    simpa using h 0 hm
  · intro h b hb
    exact decide_eq_true (fun he => h (he ▸ hb))

theorem not_mem_cstring (s : Bytes) : (0 : UInt8) ∉ cstring s := by
  intro hm
  simpa using List.mem_takeWhile_imp hm

theorem length_cstring_eq_iff {s : Bytes} : (cstring s).length = s.length ↔ (0 : UInt8) ∉ s := by
  rw [← cstring_eq_self_iff]
  constructor
  · exact fun h => (List.takeWhile_prefix _).eq_of_length h
  · exact fun h => congrArg List.length h

/-- What follows a text counts only when the text has no zero of its own. -/
theorem cstring_append (s t : Bytes) :
    cstring (s ++ t) = if (0 : UInt8) ∈ s then cstring s else s ++ cstring t := by
  induction s with
  | nil => rfl
  | cons b s ih =>
    rw [List.cons_append, cstring_cons, cstring_cons, ih]
    by_cases hb : b = 0
    · simp [hb]
    · have hb' : ¬ (0 : UInt8) = b := fun h => hb h.symm
      simp only [hb, if_false, List.mem_cons, hb', false_or]
      split <;> rfl

/-- Nothing readable follows the C string in its memory. -/
theorem cstring_drop (s : Bytes) : cstring (s.drop (cstring s).length) = [] := by
  induction s with
  | nil => rfl
  | cons b s ih =>
    rw [cstring_cons]
    by_cases hb : b = 0
    · rw [if_pos hb, List.length_nil, List.drop_zero, cstring_cons, if_pos hb]
    · rw [if_neg hb, List.length_cons, List.drop_succ_cons, ih]

/-- Two texts of one length that read the same still do when the same is appended. -/
theorem cstring_append_congr {s s' t t' : Bytes} (hl : s.length = s'.length)
    (hs : cstring s = cstring s') (ht : cstring t = cstring t') :
    cstring (s ++ t) = cstring (s' ++ t') := by
  have hz : (0 : UInt8) ∈ s ↔ (0 : UInt8) ∈ s' := by
    have h := length_cstring_eq_iff (s := s)
    rw [hs, hl, length_cstring_eq_iff] at h
    exact not_iff_not.mp h.symm
  rw [cstring_append, cstring_append]
  by_cases h : (0 : UInt8) ∈ s
  · rw [if_pos h, if_pos (hz.mp h), hs]
  · have h' := fun hm => h (hz.mpr hm)
    rw [if_neg h, if_neg h', ← cstring_eq_self_iff.mpr h, ← cstring_eq_self_iff.mpr h', hs, ht]

/-- The memory of a `char[n]`. -/
structure CharArray (n : Nat) where
  cells : Bytes
  size_eq : cells.length = n
  deriving DecidableEq

namespace CharArray

variable {n : Nat}

/-- Write `bs` from index `off` on; `none` when a byte would fall outside. -/
def write (a : CharArray n) (off : Nat) (bs : Bytes) : Option (CharArray n) :=
  if h : off + bs.length ≤ n then
    some ⟨a.cells.take off ++ bs ++ a.cells.drop (off + bs.length), by
      have hs := a.size_eq
      simp only [List.length_append, List.length_take, List.length_drop]
      omega⟩
  else none

/-- What `strncpy` of `bs.length` bytes stores: the source up to its first zero,
padded with zeros to the full count. -/
def padded (bs : Bytes) : Bytes :=
  cstring bs ++ List.replicate (bs.length - (cstring bs).length) 0

/-- `strncpy(&a[off], bs, len)` where `len` is the length of `bs`. -/
def strncpy (a : CharArray n) (off : Nat) (bs : Bytes) : Option (CharArray n) :=
  a.write off (padded bs)

/-- The array read as a C string. -/
def cstr (a : CharArray n) : Bytes := cstring a.cells

/-- Lower-case the C string in place. -/
def toLower (a : CharArray n) : CharArray n :=
  ⟨lower a.cstr ++ a.cells.drop a.cstr.length, by
    have hle := cstring_length_le a.cells
    have hs := a.size_eq
    rw [List.length_append, lower_length, List.length_drop]
    unfold cstr
    omega⟩

/-- `a[0] = 0`. -/
def clear (a : CharArray n) : CharArray n :=
  ⟨a.cells.set 0 0, by rw [List.length_set]; exact a.size_eq⟩

/-- Copy `bs` behind the first `len` characters and terminate the string there. -/
def append (a : CharArray n) (len : Nat) (bs : Bytes) : Option (CharArray n) :=
  (a.strncpy len bs).bind (fun b => b.write (len + bs.length) [0])

/-- The text `s` and its terminator lie at the front of the array. -/
def Holds (a : CharArray n) (s : Bytes) : Prop :=
  ∃ m rest, a.cells = m ++ 0 :: rest ∧ m.length = s.length ∧ cstring m = cstring s

theorem padded_length (bs : Bytes) : (padded bs).length = bs.length := by
  have hle := cstring_length_le bs
  unfold padded
  rw [List.length_append, List.length_replicate]
  omega

theorem cstring_padded (bs : Bytes) : cstring (padded bs) = cstring bs := by
  unfold padded
  rw [cstring_append, if_neg (not_mem_cstring bs)]
  cases bs.length - (cstring bs).length with
  | zero => exact List.append_nil _
  | succ k => rw [List.replicate_succ, cstring_cons, if_pos rfl, List.append_nil]

theorem write_isSome {a : CharArray n} {off : Nat} {bs : Bytes} :
    (a.write off bs).isSome ↔ off + bs.length ≤ n := by
  unfold write
  split <;> simp [*]

theorem strncpy_isSome {a : CharArray n} {off : Nat} {bs : Bytes} :
    (a.strncpy off bs).isSome ↔ off + bs.length ≤ n := by
  unfold strncpy
  rw [write_isSome, padded_length]

/-- The copy and its terminator both fit, or the operation fails. -/
theorem append_isSome {a : CharArray n} {len : Nat} {bs : Bytes} :
    (a.append len bs).isSome ↔ len + bs.length < n := by
  unfold append
  cases h : a.strncpy len bs with
  | none =>
    have hn : ¬ len + bs.length ≤ n := by
      rw [← strncpy_isSome (a := a), h]
      simp
    simp only [Option.bind_none, Option.isSome_none, Bool.false_eq_true, false_iff]
    omega
  | some b =>
    rw [Option.bind_some, write_isSome, List.length_singleton]
    omega

/-- A write of `bs` right behind the memory `m` leaves `m` in place. -/
theorem write_behind {a b : CharArray n} {m bs : Bytes} (hp : m <+: a.cells)
    (h : a.write m.length bs = some b) : m ++ bs <+: b.cells := by
  unfold write at h
  split at h
  · obtain rfl := Option.some.inj h
    have ht : a.cells.take m.length = m := (List.prefix_iff_eq_take.mp hp).symm
    exact ⟨a.cells.drop (m.length + bs.length), by simp only [ht]⟩
  · cases h

theorem Holds.cstr {a : CharArray n} {s : Bytes} (h : a.Holds s) : a.cstr = cstring s := by
  obtain ⟨m, rest, hc, -, hs⟩ := h
  unfold CharArray.cstr
  rw [hc, ← hs, cstring_append, cstring_cons, if_pos rfl, List.append_nil]
  split
  · rfl
  · rename_i hz
    exact (cstring_eq_self_iff.mpr hz).symm

theorem cstr_toLower (a : CharArray n) : a.toLower.cstr = lower a.cstr := by
  have hz : (0 : UInt8) ∉ lower a.cstr := not_mem_lower (not_mem_cstring a.cells)
  change cstring (lower a.cstr ++ a.cells.drop a.cstr.length) = _
  rw [cstring_append, if_neg hz]
  unfold cstr
  rw [cstring_drop, List.append_nil]

/-- Zeroing the first character empties the string. -/
theorem clear_holds (a : CharArray n) (hn : 0 < n) : a.clear.Holds [] := by
  obtain ⟨cells, rfl⟩ := a
  cases cells with
  | nil => exact absurd hn (Nat.lt_irrefl 0)
  | cons b rest => exact ⟨[], rest, rfl, rfl, rfl⟩

/-- Appending a piece extends the held text by it. -/
theorem append_holds {a b : CharArray n} {s bs : Bytes} (h : a.Holds s)
    (hb : a.append s.length bs = some b) : b.Holds (s ++ bs) := by
  obtain ⟨m, rest, hm, hl, hs⟩ := h
  unfold append at hb
  obtain ⟨c, hc, hw⟩ := Option.bind_eq_some_iff.mp hb
  rw [← hl] at hc hw
  have hcopy := write_behind ⟨0 :: rest, hm.symm⟩ hc
  rw [← padded_length bs, ← List.length_append] at hw
  obtain ⟨rest', hr⟩ := write_behind hcopy hw
  refine ⟨m ++ padded bs, rest', by rw [← hr]; simp, ?_, ?_⟩
  · rw [List.length_append, List.length_append, padded_length, hl]
  · exact cstring_append_congr hl hs (cstring_padded bs)

end CharArray

end CsiHttp.Lib

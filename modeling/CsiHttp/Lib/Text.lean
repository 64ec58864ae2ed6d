import Mathlib.Data.List.Basic

/-!
# Bytes, ASCII case and the C conversions to decimal

Strings of the program are sequences of bytes. Case conversion is the one of the
classic locale: it changes the twenty-six ASCII letters and nothing else.
-/
namespace CsiHttp.Lib.Text

abbrev Bytes := List UInt8

/-- The bytes of an ASCII literal. -/
def ascii (s : String) : Bytes := s.toList.map (fun c => c.toNat.toUInt8)

def toLower (b : UInt8) : UInt8 := if 65 ≤ b ∧ b ≤ 90 then b + 32 else b

def toUpper (b : UInt8) : UInt8 := if 97 ≤ b ∧ b ≤ 122 then b - 32 else b

def lower (s : Bytes) : Bytes := s.map toLower

def upper (s : Bytes) : Bytes := s.map toUpper

/-- Equality of two strings up to case, byte by byte on the upper-case forms. -/
def iequals (s t : Bytes) : Bool := upper s == upper t

theorem toNat_toLower (b : UInt8) :
    (toLower b).toNat = if 65 ≤ b.toNat ∧ b.toNat ≤ 90 then b.toNat + 32 else b.toNat := by
  unfold toLower
  by_cases h : 65 ≤ b.toNat ∧ b.toNat ≤ 90
  · rw [if_pos (show 65 ≤ b ∧ b ≤ 90 from h), if_pos h, UInt8.toNat_add]
    change (b.toNat + 32) % 256 = b.toNat + 32
    omega
  · rw [if_neg (show ¬ (65 ≤ b ∧ b ≤ 90) from h), if_neg h]

theorem toNat_toUpper (b : UInt8) :
    (toUpper b).toNat = if 97 ≤ b.toNat ∧ b.toNat ≤ 122 then b.toNat - 32 else b.toNat := by
  unfold toUpper
  by_cases h : 97 ≤ b.toNat ∧ b.toNat ≤ 122
  · have hle : (32 : UInt8) ≤ b := by
      change 32 ≤ b.toNat
      omega
    rw [if_pos (show 97 ≤ b ∧ b ≤ 122 from h), if_pos h, UInt8.toNat_sub_of_le _ _ hle]
    rfl
  · rw [if_neg (show ¬ (97 ≤ b ∧ b ≤ 122) from h), if_neg h]

theorem toUpper_toLower (b : UInt8) : toUpper (toLower b) = toUpper b := by
  apply UInt8.toNat_inj.mp
  rw [toNat_toUpper, toNat_toUpper, toNat_toLower]
  by_cases h : 65 ≤ b.toNat ∧ b.toNat ≤ 90
  · rw [if_pos h]
    split <;> split <;> omega
  · rw [if_neg h]

theorem toLower_toUpper (b : UInt8) : toLower (toUpper b) = toLower b := by
  apply UInt8.toNat_inj.mp
  rw [toNat_toLower, toNat_toLower, toNat_toUpper]
  by_cases h : 97 ≤ b.toNat ∧ b.toNat ≤ 122
  · rw [if_pos h]
    split <;> split <;> omega
  · rw [if_neg h]

theorem toLower_eq_zero (b : UInt8) : toLower b = 0 ↔ b = 0 := by
  rw [← UInt8.toNat_inj, ← UInt8.toNat_inj, toNat_toLower]
  change _ = 0 ↔ _ = 0
  split <;> omega

@[simp] theorem lower_length (s : Bytes) : (lower s).length = s.length := List.length_map ..

theorem lower_eq_nil {s : Bytes} : lower s = [] ↔ s = [] := List.map_eq_nil_iff

theorem upper_lower (s : Bytes) : upper (lower s) = upper s := by
  unfold upper lower
  rw [List.map_map]
  exact List.map_congr_left (fun b _ => toUpper_toLower b)

theorem lower_upper (s : Bytes) : lower (upper s) = lower s := by
  unfold upper lower
  rw [List.map_map]
  exact List.map_congr_left (fun b _ => toLower_toUpper b)

/-- The two case foldings identify the same strings. -/
theorem upper_eq_iff (s t : Bytes) : upper s = upper t ↔ lower s = lower t := by
  constructor
  · intro h
    rw [← lower_upper s, h, lower_upper]
  · intro h
    rw [← upper_lower s, h, upper_lower]

/-- A stored lower-case name is found by any spelling of it. -/
theorem iequals_lower (s t : Bytes) : iequals s (lower t) = decide (lower s = lower t) := by
  unfold iequals
  rw [upper_lower, beq_eq_decide]
  exact decide_eq_decide.mpr (upper_eq_iff s t)

theorem not_mem_lower {s : Bytes} (h : (0 : UInt8) ∉ s) : (0 : UInt8) ∉ lower s := by
  intro hm
  obtain ⟨b, hb, he⟩ := List.mem_map.mp hm
  rw [toLower_eq_zero] at he
  exact h (he ▸ hb)

/-- `sprintf("%d", i)`. -/
def decimal (i : Int) : Bytes := ascii (toString i)

/-- Conversion of a `size_t` to a 32-bit two's complement `int`. -/
def toInt32 (n : Nat) : Int := (BitVec.ofNat 32 n).toInt

theorem toInt32_of_lt {n : Nat} (h : n < 2147483648) : toInt32 n = n := by
  rw [toInt32, BitVec.toInt_ofNat', Int.bmod_eq_of_le] <;> omega

/-- A digit as a byte. -/
theorem toNat_byte_of_isDigit {c : Char} (h : c.isDigit = true) :
    c.toNat.toUInt8.toNat = c.toNat ∧ 48 ≤ c.toNat ∧ c.toNat ≤ 57 := by
  obtain ⟨hlo, hhi⟩ : 48 ≤ c.toNat ∧ c.toNat ≤ 57 := by
    simpa [Char.isDigit, UInt32.le_iff_toNat_le] using h
  refine ⟨?_, hlo, hhi⟩
  rw [Nat.toUInt8_eq, UInt8.toNat_ofNat']
  omega

theorem decimal_natCast (n : Nat) :
    decimal n = (Nat.toDigits 10 n).map (fun c => c.toNat.toUInt8) := by
  change ((toString n).toList).map _ = _
  rw [Nat.toString_eq_ofList_toDigits, String.toList_ofList]

theorem mem_decimal {n : Nat} {b : UInt8} (h : b ∈ decimal n) : 48 ≤ b.toNat ∧ b.toNat ≤ 57 := by
  rw [decimal_natCast] at h
  obtain ⟨c, hc, rfl⟩ := List.mem_map.mp h
  obtain ⟨hb, hlo, hhi⟩ :=
    toNat_byte_of_isDigit (Nat.isDigit_of_mem_toDigits (by decide) (by decide) hc)
  omega

theorem decimal_ne_nil (n : Nat) : decimal n ≠ [] := by
  rw [decimal_natCast, Ne, List.map_eq_nil_iff]
  exact Nat.toDigits_ne_nil

end CsiHttp.Lib.Text

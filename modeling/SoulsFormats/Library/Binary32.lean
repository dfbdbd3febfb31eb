import Mathlib.Algebra.Order.Field.Power
import Mathlib.Data.Int.Log
import Mathlib.Data.Rat.Floor
import Mathlib.Tactic.Linarith
import Mathlib.Tactic.NormNum
import Mathlib.Tactic.Positivity
import Mathlib.Tactic.Ring

set_option autoImplicit false

/-! # Binary32 floats as exact rationals

`value` is the number that a bit pattern of the IEEE format stands for and `nearest` the pattern of the
float nearest to a number, ties to even, with gradual underflow and overflow to an infinity. A pattern
comes back from its value, the negative zero excepted. -/

namespace Binary32

/-! ## What a pattern stands for -/

/-- The magnitude of an exponent field and a fraction field. -/
def magnitude (e m : Nat) : ℚ :=
  if e = 0 then m * 2 ^ (-149 : ℤ) else (2 ^ 23 + m) * 2 ^ ((e : ℤ) - 150)

/-- The number of a pattern; infinities and NaNs stand for none. -/
def value (bits : Nat) : Option ℚ :=
  if bits / 2 ^ 23 % 256 = 255 then none
  else
    let a := magnitude (bits / 2 ^ 23 % 256) (bits % 2 ^ 23)
    some (if bits / 2 ^ 31 = 0 then a else -a)

/-! ## The nearest pattern -/

/-- The natural number nearest to a number that is not negative, ties to even. -/
def roundEven (a : ℚ) : Nat :=
  let n := ⌊a⌋₊
  if a - n < 1 / 2 then n else if 1 / 2 < a - n then n + 1 else n + n % 2

/-- The exponent of the last place but 23: that of the leading bit, but none below the normal range. -/
def exponent (a : ℚ) : ℤ := if a = 0 then -126 else max (Int.log 2 a) (-126)

/-- The exponent and the fraction of a magnitude; a significand that rounds up to a power of two carries. -/
def fields (a : ℚ) : Nat := (exponent a + 126).toNat * 2 ^ 23 + roundEven (a / 2 ^ (exponent a - 23))

def nearest (q : ℚ) : Nat := (if q < 0 then 2 ^ 31 else 0) + min (fields |q|) (255 * 2 ^ 23)

theorem roundEven_natCast (n : Nat) : roundEven (n : ℚ) = n := by
  simp [roundEven]

/-- A power of two, and what lies below the next one, have its exponent. -/
theorem exponent_of_bounds {a : ℚ} {e : ℤ} (he : -126 ≤ e) (hlow : 2 ^ e ≤ a) (hhigh : a < 2 ^ (e + 1)) :
    exponent a = e := by
  have hpos : 0 < a := lt_of_lt_of_le (by positivity) hlow
  have hle : e ≤ Int.log 2 a := (Int.zpow_le_iff_le_log (by norm_num) hpos).1 (by exact_mod_cast hlow)
  have hlt : Int.log 2 a < e + 1 := (Int.lt_zpow_iff_log_lt (by norm_num) hpos).1 (by exact_mod_cast hhigh)
  rw [exponent, if_neg hpos.ne']
  omega

/-- Below the normal range there is one exponent. -/
theorem exponent_of_small {a : ℚ} (hnonneg : 0 ≤ a) (hsmall : a < 2 ^ (-126 : ℤ)) : exponent a = -126 := by
  rcases hnonneg.eq_or_lt with rfl | hpos
  · simp [exponent]
  · have hlt : Int.log 2 a < -126 := (Int.lt_zpow_iff_log_lt (by norm_num) hpos).1 (by exact_mod_cast hsmall)
    rw [exponent, if_neg hpos.ne']
    omega

theorem magnitude_nonneg (e m : Nat) : 0 ≤ magnitude e m := by
  unfold magnitude
  split <;> positivity

theorem magnitude_eq_zero {e m : Nat} : magnitude e m = 0 ↔ e = 0 ∧ m = 0 := by
  unfold magnitude
  split
  · rename_i he
    simp [he]
  · rename_i he
    have hpos : (0 : ℚ) < (2 ^ 23 + m) * 2 ^ ((e : ℤ) - 150) := by positivity
    simp [he, hpos.ne']

/-- The fields of a finite pattern come back from its magnitude. -/
theorem fields_magnitude {e m : Nat} (hm : m < 2 ^ 23) : fields (magnitude e m) = e * 2 ^ 23 + m := by
  have hmq : (m : ℚ) < 2 ^ 23 := by exact_mod_cast hm
  rcases Nat.eq_zero_or_pos e with rfl | he
  · have hmag : magnitude 0 m = m * 2 ^ (-149 : ℤ) := by simp [magnitude]
    have hexp : exponent (magnitude 0 m) = -126 := by
      refine exponent_of_small (magnitude_nonneg 0 m) ?_
      calc magnitude 0 m = m * 2 ^ (-149 : ℤ) := hmag
        _ < 2 ^ 23 * 2 ^ (-149 : ℤ) := by gcongr
        _ = 2 ^ (-126 : ℤ) := by norm_num
    have hunit : magnitude 0 m / 2 ^ ((-126 : ℤ) - 23) = (m : ℚ) := by
      rw [hmag]
      norm_num
    rw [fields, hexp, hunit, roundEven_natCast]
    norm_num
  · have hmag : magnitude e m = (2 ^ 23 + m) * 2 ^ ((e : ℤ) - 150) := by simp [magnitude, he.ne']
    have hsplit : (2 : ℚ) ^ ((e : ℤ) - 127) = 2 ^ 23 * 2 ^ ((e : ℤ) - 150) := by
      rw [← zpow_natCast (2 : ℚ) 23, ← zpow_add₀ (by norm_num)]
      congr 1
      push_cast
      ring
    have hnext : (2 : ℚ) ^ ((e : ℤ) - 127 + 1) = 2 ^ 24 * 2 ^ ((e : ℤ) - 150) := by
      rw [zpow_add_one₀ (by norm_num), hsplit]
      ring
    have hexp : exponent (magnitude e m) = (e : ℤ) - 127 := by
      refine exponent_of_bounds (by omega) ?_ ?_
      · rw [hmag, hsplit]
        gcongr
        exact le_add_of_nonneg_right m.cast_nonneg
      · rw [hmag, hnext]
        gcongr
        linarith
    have hunit : magnitude e m / 2 ^ ((e : ℤ) - 127 - 23) = ((2 ^ 23 + m : Nat) : ℚ) := by
      have hsub : (e : ℤ) - 127 - 23 = (e : ℤ) - 150 := by ring
      rw [hmag, hsub, mul_div_assoc, div_self (by positivity), mul_one]
      push_cast
      ring
    rw [fields, hexp, hunit, roundEven_natCast]
    have hfield : ((e : ℤ) - 127 + 126).toNat = e - 1 := by omega
    rw [hfield]
    omega

/-- A finite pattern other than the negative zero comes back from its value. -/
theorem nearest_value {bits : Nat} {q : ℚ} (hbits : bits < 2 ^ 32) (hv : value bits = some q)
    (hz : bits ≠ 2 ^ 31) : nearest q = bits := by
  set e := bits / 2 ^ 23 % 256 with he
  set m := bits % 2 ^ 23 with hm
  unfold value at hv
  rw [← he, ← hm] at hv
  split at hv
  · cases hv
  rename_i hfinite
  have hq : (if bits / 2 ^ 31 = 0 then magnitude e m else -magnitude e m) = q := Option.some.inj hv
  have habs : |q| = magnitude e m := by
    rw [← hq]
    split
    · exact abs_of_nonneg (magnitude_nonneg e m)
    · rw [abs_neg, abs_of_nonneg (magnitude_nonneg e m)]
  have hneg : (if q < 0 then 2 ^ 31 else 0) = bits / 2 ^ 31 * 2 ^ 31 := by
    rw [← hq]
    by_cases hsign : bits / 2 ^ 31 = 0
    · rw [if_pos hsign, if_neg (not_lt.2 (magnitude_nonneg e m)), hsign, Nat.zero_mul]
    · have hpos : 0 < magnitude e m := by
        refine lt_of_le_of_ne (magnitude_nonneg e m) fun h => ?_
        have := magnitude_eq_zero.1 h.symm
        omega
      have hone : bits / 2 ^ 31 = 1 := by omega
      rw [if_neg hsign, if_pos (neg_lt_zero.2 hpos), hone, Nat.one_mul]
  rw [nearest, habs, hneg, fields_magnitude (by omega)]
  omega

end Binary32

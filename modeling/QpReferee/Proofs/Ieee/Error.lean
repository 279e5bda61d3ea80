import QpReferee.Proofs.Ieee.Monotone

/-!
# The error of a rounding

A number of the format's range is moved by at most half a unit of its last digit, which is a small part of it
unless it is one of the smallest numbers.

* `abs_roundedValue_sub_le` : **how far a rounded number is from the exact one.**
* `value_nearest` : the value of the word of a number in range.
* `unsigned_div` : a quotient is the word of the exact quotient.
-/

namespace QpReferee.Ieee

open Float.Model (Format UnpackedFloat)
open Float.Model.UnpackedFloat

variable {fmt : Format} {v w : ℚ} {a b : UnpackedFloat}

theorem abs_roundedMantissa_sub_le (hw : 0 ≤ w) : |((extend w).roundedMantissa : ℚ) - w| ≤ 1 / 2 := by
  have hfloor : w = ⌊w⌋₊ + rest w := by
    unfold rest
    ring
  have hrest := rest_nonneg hw
  have hone := rest_lt_one w
  rw [abs_le]
  rcases lt_trichotomy (rest w) (1 / 2) with h | h | h
  · rw [roundedMantissa_of_rest_lt h]
    constructor <;> linarith
  · have hdigit : ((⌊w⌋₊ % 2 : ℕ) : ℚ) ≤ 1 := by
      exact_mod_cast Nat.lt_succ_iff.mp (Nat.mod_lt ⌊w⌋₊ two_pos)
    have hpos : (0 : ℚ) ≤ (⌊w⌋₊ % 2 : ℕ) := Nat.cast_nonneg _
    rw [roundedMantissa_of_rest_eq h, Nat.cast_add]
    constructor <;> linarith
  · rw [roundedMantissa_of_lt_rest h, Nat.cast_add, Nat.cast_one]
    constructor <;> linarith

/-- **A rounded number is close to the exact one**, unless that is one of the smallest. -/
theorem abs_roundedValue_sub_le (hv : 0 < v)
    (hnormal : (2 : ℚ) ^ fmt.mantissaBitsWithoutImplicit * 2 ^ fmt.minExponent ≤ v) :
    |roundedValue fmt v - v| ≤ v / 2 ^ fmt.mantissaBits := by
  have hunit : (0 : ℚ) < 2 ^ place fmt v := by positivity
  have hfull : (2 : ℚ) ^ fmt.mantissaBitsWithoutImplicit * 2 ^ place fmt v ≤ v := by
    rcases place_eq_or_le fmt hv with hplace | hfull
    · rwa [hplace]
    · rw [le_div_iff₀ hunit] at hfull
      exact_mod_cast hfull
  have hscale : v = v / 2 ^ place fmt v * 2 ^ place fmt v := (div_mul_cancel₀ v hunit.ne').symm
  have hdigits : (2 : ℚ) ^ fmt.mantissaBits = 2 * 2 ^ fmt.mantissaBitsWithoutImplicit := by
    rw [Format.mantissaBits, pow_add, pow_one]
  calc |roundedValue fmt v - v|
      = |((extend (v / 2 ^ place fmt v)).roundedMantissa : ℚ) - v / 2 ^ place fmt v| * 2 ^ place fmt v := by
        conv_lhs => rw [roundedValue]; rhs; rhs; rw [hscale]
        rw [← sub_mul, abs_mul, abs_of_pos hunit]
    _ ≤ 1 / 2 * 2 ^ place fmt v :=
        mul_le_mul_of_nonneg_right (abs_roundedMantissa_sub_le (by positivity)) hunit.le
    _ ≤ v / 2 ^ fmt.mantissaBits := by
        rw [hdigits, le_div_iff₀ (by positivity)]
        linarith

theorem roundedValue_zero : roundedValue fmt 0 = 0 := by
  unfold roundedValue
  rw [zero_div, show (0 : ℚ) = (0 : ℕ) from rfl, roundedMantissa_natCast, Nat.cast_zero, zero_mul]

theorem value_nearest (hwide : 0 < maxExponent fmt) (hv : 0 ≤ v) (h : v ≤ largest fmt) :
    (nearest fmt v).isFinite = true ∧ value (nearest fmt v) = roundedValue fmt v := by
  rcases hv.lt_or_eq with hpos | rfl
  · have hwithin := rounded_within_of_le hwide .positive hpos h
    rw [((nearest_cases fmt hpos).resolve_right fun hover => hover.1 hwithin).2, value_rounded hv]
    exact ⟨isFinite_of_within hwithin, rfl⟩
  · rw [nearest_zero, roundedValue_zero]
    exact ⟨rfl, rfl⟩

theorem value_unsigned (u : UnpackedFloat) : value (unsigned u) = value u := by
  cases u <;> rfl

theorem isFinite_unsigned (u : UnpackedFloat) : (unsigned u).isFinite = u.isFinite := by
  cases u <;> rfl

/-- **A quotient is the word of the exact quotient**, but for the sign of a zero. -/
theorem unsigned_div (hfa : a.isFinite = true) (hfb : b.isFinite = true) (hpa : 0 ≤ value a)
    (hpb : 0 < value b) : unsigned (repack fmt (div fmt a b)) = nearest fmt (value a / value b) := by
  rcases zero_or_positive hfb hpb.le with ⟨t, rfl⟩ | ⟨n, f, hn, rfl⟩
  · exact absurd hpb (lt_irrefl 0)
  · rcases zero_or_positive hfa hpa with ⟨s, rfl⟩ | ⟨m, e, hm, rfl⟩
    · rw [show value (.zero s) = 0 from rfl, zero_div]
      exact unsigned_repack (a := .zero _) trivial rfl le_rfl
    · have hquotient : (0 : ℚ) < m * 2 ^ e / (n * 2 ^ f) := by positivity
      rw [div_eq]
      show unsigned (repack fmt (rounded fmt .positive (m * 2 ^ e / (n * 2 ^ f)))) =
        nearest fmt (m * 2 ^ e / (n * 2 ^ f))
      rw [← nearest_of_pos hquotient]
      exact unsigned_nearest hquotient.le

/-! ## Doubles -/

/-- Whole numbers of 53 bits, and a little more, are in the range of the doubles. -/
theorem le_largest : (2 : ℚ) ^ 53 + 1 ≤ largest .binary64 := by
  have hmax : maxExponent .binary64 = 971 := rfl
  have hpow : (2 : ℚ) ^ (1 : ℤ) ≤ 2 ^ (971 : ℤ) := zpow_le_zpow_right₀ one_le_two (by decide)
  have hdigits : (2 : ℚ) ^ Format.binary64.mantissaBits = 2 ^ 53 := rfl
  unfold largest
  rw [hmax, hdigits]
  calc (2 : ℚ) ^ 53 + 1 ≤ (2 ^ 53 - 1) * 2 ^ (1 : ℤ) := by norm_num
    _ ≤ (2 ^ 53 - 1) * 2 ^ (971 : ℤ) := mul_le_mul_of_nonneg_left hpow (by norm_num)

end QpReferee.Ieee

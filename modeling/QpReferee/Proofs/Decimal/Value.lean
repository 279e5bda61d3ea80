import Mathlib.Algebra.Order.Field.Rat
import Mathlib.Algebra.Order.Field.Power
import Mathlib.Data.Nat.Digits.Lemmas
import Mathlib.Tactic.FieldSimp
import Mathlib.Tactic.Positivity
import QpReferee.Decimal.Shortest
import QpReferee.Proofs.Decimal.Nearest

/-!
# The value of a decimal number

Decimal numbers are compared by their values. The leading digit and the magnitude that a decimal rounds to
depend on nothing else, so neither the zeros at the end of the digits nor the place of the point matter.

* `Decimal.magnitude_congr` : equal values round alike.
* `magnitude_shortest` : **the shortest decimal of a magnitude rounds back to it.** Every grid is tried
  with this test, and where no grid passes the exact value stands in.
-/

namespace QpReferee

/-! ## Digits -/

theorem digitCount_zero : digitCount 0 = 0 := by
  rw [digitCount, dif_pos rfl]

theorem digitCount_eq (n : ℕ) : digitCount n = (Nat.digits 10 n).length := by
  induction n using digitCount.induct with
  | case1 =>
    rw [digitCount_zero, Nat.digits_zero, List.length_nil]
  | case2 n hn ih =>
    rw [digitCount, dif_neg hn, ih, Nat.digits_def' (by decide) (Nat.pos_of_ne_zero hn), List.length_cons]

theorem lt_pow_digitCount (n : ℕ) : n < 10 ^ digitCount n := by
  rw [digitCount_eq]
  exact Nat.lt_base_pow_length_digits (by decide)

theorem pow_digitCount_le {n : ℕ} (hn : n ≠ 0) : 10 ^ digitCount n ≤ 10 * n := by
  rw [digitCount_eq]
  exact Nat.base_pow_length_digits_le 10 n (by decide) hn

theorem digitCount_pos {n : ℕ} (hn : n ≠ 0) : 0 < digitCount n := by
  rw [digitCount, dif_neg hn]
  exact Nat.succ_pos _

theorem digitCount_le_of_lt {n k : ℕ} (h : n < 10 ^ k) : digitCount n ≤ k := by
  rw [digitCount_eq]
  exact (Nat.digits_length_le_iff (by decide) n).mpr h

namespace Decimal

/-- The rational number that a decimal is. -/
def value (d : Decimal) : ℚ := d.digits * 10 ^ d.exponent

theorem value_eq_zero_iff {d : Decimal} : d.value = 0 ↔ d.digits = 0 := by
  have hpow : (10 : ℚ) ^ d.exponent ≠ 0 := zpow_ne_zero _ (by norm_num)
  rw [value, mul_eq_zero, or_iff_left hpow, Nat.cast_eq_zero]

theorem value_bounds {d : Decimal} (hd : d.digits ≠ 0) :
    (10 : ℚ) ^ (d.lead - 1) ≤ d.value ∧ d.value < 10 ^ d.lead := by
  have hpow : (0 : ℚ) < 10 ^ d.exponent := by positivity
  have hlead : (10 : ℚ) ^ d.lead = 10 ^ digitCount d.digits * 10 ^ d.exponent := by
    rw [lead, zpow_add₀ (by norm_num), zpow_natCast]
  constructor
  · have hle : (10 : ℚ) ^ digitCount d.digits ≤ 10 * d.digits := by exact_mod_cast pow_digitCount_le hd
    rw [zpow_sub_one₀ (by norm_num), hlead, value]
    have hmul := mul_le_mul_of_nonneg_right hle hpow.le
    linarith
  · have hlt : (d.digits : ℚ) < 10 ^ digitCount d.digits := by exact_mod_cast lt_pow_digitCount d.digits
    rw [hlead, value]
    exact mul_lt_mul_of_pos_right hlt hpow

theorem lead_congr {d e : Decimal} (hd : d.digits ≠ 0) (h : d.value = e.value) : d.lead = e.lead := by
  have he : e.digits ≠ 0 := fun he => hd (value_eq_zero_iff.mp (h.trans (value_eq_zero_iff.mpr he)))
  obtain ⟨hdle, hdlt⟩ := value_bounds hd
  obtain ⟨hele, helt⟩ := value_bounds he
  have hone : (1 : ℚ) < 10 := by norm_num
  rw [h] at hdle hdlt
  have hlt := (zpow_lt_zpow_iff_right₀ hone).mp (hdle.trans_lt helt)
  have hgt := (zpow_lt_zpow_iff_right₀ hone).mp (hele.trans_lt hdlt)
  omega

theorem fraction_snd_pos (d : Decimal) : 0 < d.fraction.2 := Nat.pow_pos (by decide)

theorem value_eq_fraction (d : Decimal) : d.value = (d.fraction.1 : ℚ) / d.fraction.2 := by
  have hexponent : d.exponent = (d.exponent.toNat : ℤ) - ((-d.exponent).toNat : ℤ) := by omega
  unfold value fraction
  simp only [Nat.pow_eq]
  rw [hexponent, zpow_sub₀ (by norm_num), zpow_natCast, zpow_natCast, ← hexponent]
  push_cast
  rw [mul_div_assoc]

/-- **Equal values round alike.** -/
theorem magnitude_congr (f : BinaryFormat) {d e : Decimal} (h : d.value = e.value) :
    d.magnitude f = e.magnitude f := by
  unfold magnitude magnitudeAt
  by_cases hd : d.digits = 0
  · have he : e.digits = 0 := value_eq_zero_iff.mp (h ▸ value_eq_zero_iff.mpr hd)
    rw [if_pos (.inl hd), if_pos (.inl he)]
  · have he : e.digits ≠ 0 := fun he => hd (value_eq_zero_iff.mp (h.trans (value_eq_zero_iff.mpr he)))
    have hcross : d.fraction.1 * e.fraction.2 = e.fraction.1 * d.fraction.2 := by
      rw [value_eq_fraction, value_eq_fraction, div_eq_div_iff (by exact_mod_cast d.fraction_snd_pos.ne')
        (by exact_mod_cast e.fraction_snd_pos.ne')] at h
      exact_mod_cast h
    rw [lead_congr hd h, f.nearest_congr d.fraction_snd_pos e.fraction_snd_pos hcross]
    simp only [hd, he, false_or]

/-- A number far below the last power of two does not overflow: ten factors of two are more than three of ten. -/
theorem magnitude_lt_infinity {f : BinaryFormat} {d : Decimal} {k : ℕ} (hlead : d.lead ≤ 3 * k)
    (hk : 10 * k + 1 < 2 ^ (f.exponentBits - 1)) : d.magnitude f < f.infinity := by
  have hexponents : 2 ^ f.exponentBits = 2 * 2 ^ (f.exponentBits - 1) := by
    rw [← pow_succ', Nat.sub_add_cancel]
    exact Nat.pos_of_ne_zero fun hzero => by simp [hzero] at hk
  have hpos : 0 < f.infinity :=
    Nat.mul_pos (Nat.sub_pos_of_lt (by rw [Nat.pow_eq]; omega)) (Nat.two_pow_pos _)
  have hrange : (Nat.pow 2 f.exponentBits : ℤ) = 2 * 2 ^ (f.exponentBits - 1) := by exact_mod_cast hexponents
  have hbound : (10 * k + 1 : ℤ) < 2 ^ (f.exponentBits - 1) := by exact_mod_cast hk
  unfold magnitude magnitudeAt
  split_ifs with hsmall hlarge
  · exact hpos
  · omega
  · have hd : d.digits ≠ 0 := fun hzero => hsmall (.inl hzero)
    refine f.nearest_lt_infinity d.fraction_snd_pos (k := 10 * k) ?_ hk
    have hvalue : d.value < 2 ^ (10 * k) := by
      calc d.value < 10 ^ d.lead := (value_bounds hd).2
        _ ≤ 10 ^ (3 * k : ℤ) := zpow_le_zpow_right₀ (by norm_num) hlead
        _ = (1000 : ℚ) ^ k := by rw [zpow_mul, zpow_natCast]; norm_num
        _ ≤ 1024 ^ k := pow_le_pow_left₀ (by norm_num) (by norm_num) k
        _ = 2 ^ (10 * k) := by rw [pow_mul]; norm_num
    rw [value_eq_fraction, div_lt_iff₀ (by exact_mod_cast d.fraction_snd_pos), mul_comm] at hvalue
    exact_mod_cast hvalue

theorem value_stripZeros (d : Decimal) : d.stripZeros.value = d.value := by
  induction d using stripZeros.induct with
  | case1 d hd ih =>
    have hdigits : d.digits = 10 * (d.digits / 10) := by omega
    rw [stripZeros, dif_pos hd, ih, value, value, zpow_add_one₀ (by norm_num)]
    dsimp only
    rw [hdigits, Nat.mul_div_cancel_left _ (by decide)]
    push_cast
    ring
  | case2 d hd =>
    rw [stripZeros, dif_neg hd]

end Decimal

/-! ## The shortest decimal -/

section

variable {f : BinaryFormat} {m : ℕ}

theorem exactDecimal_value (f : BinaryFormat) (m : ℕ) :
    (exactDecimal f m).value = (f.units m : ℚ) / 2 ^ f.smallest := by
  have hten : (10 : ℚ) ^ f.smallest = 2 ^ f.smallest * 5 ^ f.smallest := by
    rw [← mul_pow]
    norm_num
  unfold exactDecimal Decimal.value
  rw [zpow_neg, zpow_natCast, Nat.pow_eq, hten]
  push_cast
  field_simp

theorem units_pos (hm : m ≠ 0) : 0 < f.units m := by
  unfold BinaryFormat.units BinaryFormat.significand
  refine Nat.mul_pos ?_ (Nat.two_pow_pos _)
  have hpos : 0 < Nat.pow 2 f.fractionBits := Nat.two_pow_pos _
  split_ifs with hzero
  · exact Nat.pos_of_ne_zero hm
  · omega

theorem units_lt (hm : m < f.infinity) :
    f.units m < 2 ^ (f.smallest + Nat.pow 2 f.exponentBits) := by
  have hlevel : f.level m < Nat.pow 2 f.exponentBits - 1 := by
    have hdiv := (Nat.div_lt_iff_lt_mul (Nat.two_pow_pos f.fractionBits)).mpr hm
    unfold BinaryFormat.level
    exact Nat.lt_of_le_of_lt (Nat.sub_le _ _) hdiv
  have hfraction : f.fractionBits ≤ f.smallest := Nat.le_add_left _ _
  unfold BinaryFormat.units
  calc f.significand m * 2 ^ f.level m
      < 2 ^ (f.fractionBits + 1) * 2 ^ f.level m :=
        Nat.mul_lt_mul_of_pos_right (f.significand_bounds m).1 (Nat.two_pow_pos _)
    _ = 2 ^ (f.fractionBits + 1 + f.level m) := (pow_add _ _ _).symm
    _ ≤ 2 ^ (f.smallest + Nat.pow 2 f.exponentBits) := Nat.pow_le_pow_right (by decide) (by omega)

theorem exactDecimal_lead (hf : f.smallest ≤ Nat.pow 2 f.exponentBits) (hm : m ≠ 0) (hlt : m < f.infinity) :
    -(Nat.pow 2 f.exponentBits : ℤ) ≤ (exactDecimal f m).lead ∧
      (exactDecimal f m).lead ≤ Nat.pow 2 f.exponentBits := by
  have hpos : f.units m * Nat.pow 5 f.smallest ≠ 0 :=
    Nat.mul_ne_zero (units_pos hm).ne' (Nat.pow_pos (by decide)).ne'
  have hbound : f.units m * Nat.pow 5 f.smallest < 10 ^ (f.smallest + Nat.pow 2 f.exponentBits) := by
    calc f.units m * 5 ^ f.smallest
        < 2 ^ (f.smallest + Nat.pow 2 f.exponentBits) * 5 ^ f.smallest :=
          Nat.mul_lt_mul_of_pos_right (units_lt hlt) (Nat.pow_pos (by decide))
      _ ≤ 2 ^ (f.smallest + Nat.pow 2 f.exponentBits) * 5 ^ (f.smallest + Nat.pow 2 f.exponentBits) :=
          Nat.mul_le_mul_left _ (Nat.pow_le_pow_right (by decide) (Nat.le_add_right _ _))
      _ = 10 ^ (f.smallest + Nat.pow 2 f.exponentBits) := (mul_pow 2 5 _).symm
  have hcount := digitCount_le_of_lt hbound
  have hcountPos := digitCount_pos hpos
  unfold Decimal.lead exactDecimal
  dsimp only
  omega

theorem magnitude_exactDecimal (hf : f.smallest ≤ Nat.pow 2 f.exponentBits) (hm : m ≠ 0)
    (hlt : m < f.infinity) : (exactDecimal f m).magnitude f = m := by
  obtain ⟨hlow, hhigh⟩ := exactDecimal_lead hf hm hlt
  have hdigits : (exactDecimal f m).digits ≠ 0 :=
    Nat.mul_ne_zero (units_pos hm).ne' (Nat.pow_pos (by decide)).ne'
  have hcross : (exactDecimal f m).fraction.1 * Nat.pow 2 f.smallest =
      f.units m * (exactDecimal f m).fraction.2 := by
    have hvalue := (exactDecimal f m).value_eq_fraction
    rw [exactDecimal_value, div_eq_div_iff (by positivity)
      (by exact_mod_cast (exactDecimal f m).fraction_snd_pos.ne')] at hvalue
    exact_mod_cast hvalue.symm
  have hnearest := f.nearest_congr (Decimal.fraction_snd_pos _) (Nat.two_pow_pos f.smallest) hcross
  unfold Decimal.magnitude Decimal.magnitudeAt
  rw [if_neg (by omega), if_neg (by omega), hnearest]
  exact f.nearest_units hlt

/-- **The shortest decimal of a magnitude rounds back to it.** -/
theorem magnitude_shortest (hf : f.smallest ≤ Nat.pow 2 f.exponentBits) (tie : Tie) (hm : m ≠ 0)
    (hlt : m < f.infinity) : (shortest f tie m).magnitude f = m := by
  unfold shortest
  dsimp only
  rw [Decimal.magnitude_congr f (Decimal.value_stripZeros _)]
  generalize hfound : List.findSome? _ _ = found
  cases found with
  | none => exact magnitude_exactDecimal hf hm hlt
  -- a grid only picks what passes this very test
  | some d =>
    obtain ⟨more, -, hpick⟩ := List.exists_of_findSome?_eq_some hfound
    unfold Grid.pick at hpick
    have hround := List.find?_some hpick
    exact eq_of_beq hround

theorem shortest_digits_ne_zero (hf : f.smallest ≤ Nat.pow 2 f.exponentBits) (tie : Tie) (hm : m ≠ 0)
    (hlt : m < f.infinity) : (shortest f tie m).digits ≠ 0 := by
  intro hzero
  have hmagnitude := magnitude_shortest hf tie hm hlt
  rw [Decimal.magnitude, Decimal.magnitudeAt, if_pos (.inl hzero)] at hmagnitude
  exact hm hmagnitude.symm

end

end QpReferee

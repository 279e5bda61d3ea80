import QpReferee.Proofs.Decimal.Nearest
import QpReferee.Proofs.Ieee.Error
import QpReferee.Proofs.Ieee.Scalars

/-!
# Double precision numbers

Comparisons and sums of double precision numbers are those of their words. A comparison is false if one of
its sides is no number, so what does not exceed a limit need not be within it.

* `Double.le_iff_of_not_lt` : when something that does not exceed a number is no more than it.
* `Double.isNaN_add_iff` : when a sum is no number.
* `isFinite_word_iff` : the bits of the finite numbers.
* `Double.isNaN_nearest`, `Double.isFinite_nearest` : the number nearest to a fraction.
* `Double.value` : the value of a double; `Double.unsigned_word_add`, `Double.unsigned_word_div` : sums and
  quotients are exact ones, rounded.
* `Double.value_nearest_natCast` : whole numbers below `2 ^ 53` are not rounded.
-/

namespace QpReferee

open Float.Model (Format UnpackedFloat)
open Float.Model.UnpackedFloat
open Ieee

theorem isFinite_word_iff (b : UInt64) : (unpack .binary64 b.toBitVec).isFinite = true ↔
    b.toNat % BinaryFormat.binary64.signBit < BinaryFormat.binary64.infinity := by
  have hexponent : @unpackExponent .binary64 b.toBitVec = -1#11 ↔
      b.toNat / 2 ^ 52 % 2 ^ 11 = 2 ^ 11 - 1 := by
    rw [unpackExponent_def, ← BitVec.toNat_inj, BitVec.extractLsb'_toNat, Nat.shiftRight_eq_div_pow]
    rfl
  have hsign : BinaryFormat.binary64.signBit = 2 ^ 63 := rfl
  have hinfinity : BinaryFormat.binary64.infinity = (2 ^ 11 - 1) * 2 ^ 52 := rfl
  rw [isFinite_unpack_iff, hsign, hinfinity]
  show ¬@unpackExponent .binary64 b.toBitVec = -1#11 ↔ _
  rw [hexponent]
  omega

namespace Double

variable {x y : Float}

/-! ## The order -/

theorem isNaN_of_le (h : x ≤ y) : x.isNaN = false ∧ y.isNaN = false :=
  Ieee.isNaN_of_le (of_decide_eq_true h)

theorem le_of_not_lt (hx : x.isNaN = false) (hy : y.isNaN = false) (h : ¬x < y) : y ≤ x := by
  apply decide_eq_true
  apply Ieee.le_of_not_lt hx hy
  intro hlt
  exact h (decide_eq_true hlt)

theorem le_iff_of_not_lt (hx : x.isNaN = false) (h : ¬x < y) : y ≤ x ↔ y.isNaN = false :=
  ⟨fun hle => (isNaN_of_le hle).1, fun hy => le_of_not_lt hx hy h⟩

/-! ## Sums -/

theorem isNaN_add_iff : (x + y).isNaN = true ↔
    x.isNaN = true ∨ y.isNaN = true ∨ x.isInf = true ∧ y.isInf = true ∧ (x == y) = false := by
  have hsum : (x + y).isNaN =
      (repack .binary64 (add .binary64 x.toModel.unpack y.toModel.unpack)).isNaN := rfl
  rw [hsum, isNaN_repack]
  exact Ieee.isNaN_add_iff

theorem isFinite_iff : x.isFinite = true ↔ x.isNaN = false ∧ x.isInf = false := by
  show x.toModel.unpack.isFinite = true ↔
    x.toModel.unpack.isNaN = false ∧ x.toModel.unpack.isInf = false
  cases x.toModel.unpack <;> simp [UnpackedFloat.isFinite, UnpackedFloat.isNaN, UnpackedFloat.isInf]

theorem isNaN_of_isFinite (h : x.isFinite = true) : x.isNaN = false := (isFinite_iff.mp h).1

theorem isInf_of_isFinite (h : x.isFinite = true) : x.isInf = false := (isFinite_iff.mp h).2

/-! ## Whole numbers and fractions -/

theorem isFinite_ofBits {m : ℕ} (h : m < BinaryFormat.binary64.infinity) :
    (Float.ofBits (UInt64.ofNat m)).isFinite = true := by
  have hword : (Float.ofBits (UInt64.ofNat m)).isFinite =
      (repack .binary64 (unpack .binary64 (UInt64.ofNat m).toBitVec)).isFinite := rfl
  have hinfinity : BinaryFormat.binary64.infinity = (2 ^ 11 - 1) * 2 ^ 52 := rfl
  have hsign : BinaryFormat.binary64.signBit = 2 ^ 63 := rfl
  rw [hword, repack_of_canonical (canonical_unpack (by decide) _), isFinite_word_iff, hsign,
    UInt64.toNat_ofNat_of_lt' (show m < 2 ^ 64 by omega)]
  omega

theorem isNaN_nearest (num den : ℕ) : (doubleNearest num den).isNaN = false := by
  unfold doubleNearest
  have hle : BinaryFormat.binary64.nearest num den ≤ BinaryFormat.binary64.infinity := Nat.min_le_left _ _
  rcases hle.lt_or_eq with hlt | heq
  · exact isNaN_of_isFinite (isFinite_ofBits hlt)
  · rw [heq]
    with_unfolding_all rfl

theorem isFinite_nearest {n : ℕ} (hn : n < 2 ^ 62) : (doubleNearest n 1).isFinite = true := by
  apply isFinite_ofBits
  apply BinaryFormat.nearest_lt_infinity _ Nat.one_pos (k := 62)
  · rw [Nat.one_mul]
    exact hn
  · decide

theorem unpack_ofBits (b : UInt64) :
    unpack .binary64 (Float.ofBits b).toBits.toBitVec = unpack .binary64 b.toBitVec := by
  have hcanonical : Canonical .binary64 (unpack .binary64 b.toBitVec) := canonical_unpack (by decide) _
  exact repack_of_canonical hcanonical

theorem value_word {m : ℕ} (h : m < BinaryFormat.binary64.infinity) :
    Ieee.value (unpack .binary64 (UInt64.ofNat m).toBitVec) =
      BinaryFormat.binary64.units m / 2 ^ BinaryFormat.binary64.smallest := by
  have hinfinity : BinaryFormat.binary64.infinity = (2 ^ 11 - 1) * 2 ^ 52 := rfl
  have hword : (UInt64.ofNat m).toBitVec.toNat = m := UInt64.toNat_ofNat_of_lt' (show m < 2 ^ 64 by omega)
  have hexponent : (@unpackExponent .binary64 (UInt64.ofNat m).toBitVec).toNat = m / 2 ^ 52 := by
    rw [unpackExponent_def, BitVec.extractLsb'_toNat, Nat.shiftRight_eq_div_pow, hword]
    exact Nat.mod_eq_of_lt (show m / 2 ^ 52 < 2 ^ 11 by omega)
  have hdigits : (@unpackMantissa .binary64 (UInt64.ofNat m).toBitVec).toNat = m % 2 ^ 52 := by
    rw [unpackMantissa_def, BitVec.extractLsb'_toNat, hword]
    rfl
  have hsign : @unpackSign .binary64 (UInt64.ofNat m).toBitVec = 0#1 := by
    apply BitVec.eq_of_toNat_eq
    rw [unpackSign_def, BitVec.extractLsb'_toNat, Nat.shiftRight_eq_div_pow, hword]
    show m / 2 ^ 63 % 2 = 0
    omega
  have hfinite : @unpackExponent .binary64 (UInt64.ofNat m).toBitVec ≠ -1#11 := by
    intro heq
    rw [heq] at hexponent
    have hones : (-1#11).toNat = 2 ^ 11 - 1 := rfl
    omega
  have hmin : Format.binary64.minExponent = -(BinaryFormat.binary64.smallest : ℤ) := rfl
  have hbits : Format.binary64.mantissaBitsWithoutImplicit = BinaryFormat.binary64.fractionBits := rfl
  have hwidth : 52 = BinaryFormat.binary64.fractionBits := rfl
  rw [value_unpack hsign hfinite, hexponent, hdigits, hmin, hbits, hwidth]
  unfold BinaryFormat.units BinaryFormat.significand BinaryFormat.level
  simp only [Nat.pow_eq]
  split_ifs with hzero
  · rw [hzero, Nat.zero_sub, pow_zero, Nat.mul_one,
      Nat.mod_eq_of_lt ((Nat.div_eq_zero_iff_lt (Nat.two_pow_pos _)).mp hzero), zpow_neg, zpow_natCast]
    rfl
  · obtain ⟨k, hk⟩ := Nat.exists_eq_succ_of_ne_zero hzero
    rw [hk, zpow_add₀ two_ne_zero, zpow_neg, zpow_natCast]
    push_cast
    rw [add_sub_cancel_right, zpow_natCast]
    ring

/-! ## Values -/

def word (x : Float) : UnpackedFloat := unpack .binary64 x.toBits.toBitVec

def value (x : Float) : ℚ := Ieee.value (word x)

theorem canonical_word (x : Float) : Canonical .binary64 (word x) := canonical_unpack (by decide) _

theorem le_iff_value_le (hx : x.isFinite = true) (hy : y.isFinite = true) : x ≤ y ↔ value x ≤ value y := by
  have hword : x ≤ y ↔ (word x).le (word y) = true := ⟨of_decide_eq_true, decide_eq_true⟩
  rw [hword]
  exact Ieee.le_iff_value_le (canonical_word x) (canonical_word y) hx hy

theorem lt_iff_value_lt (hx : x.isFinite = true) (hy : y.isFinite = true) : x < y ↔ value x < value y := by
  rw [← not_le, ← le_iff_value_le hy hx]
  constructor
  · intro hlt hle
    exact Ieee.not_le_of_lt (of_decide_eq_true hlt) (of_decide_eq_true hle)
  · intro hle
    by_contra hlt
    exact hle (le_of_not_lt (isNaN_of_isFinite hx) (isNaN_of_isFinite hy) hlt)

theorem unsigned_word_add (hx : x.isFinite = true) (hy : y.isFinite = true) (hpx : 0 ≤ value x)
    (hpy : 0 ≤ value y) : unsigned (word (x + y)) = nearest .binary64 (value x + value y) :=
  unsigned_add (canonical_word x) (canonical_word y) hx hy hpx hpy

theorem unsigned_word_div (hx : x.isFinite = true) (hy : y.isFinite = true) (hpx : 0 ≤ value x)
    (hpy : 0 < value y) : unsigned (word (x / y)) = nearest .binary64 (value x / value y) :=
  unsigned_div hx hy hpx hpy

/-- The value of a result, which does not see the sign of a zero. -/
theorem value_of_unsigned {v : ℚ} (h : unsigned (word x) = nearest .binary64 v) (hv : 0 ≤ v)
    (hle : v ≤ largest .binary64) : x.isFinite = true ∧ value x = roundedValue .binary64 v := by
  obtain ⟨hfinite, hvalue⟩ := value_nearest (by decide) hv hle
  rw [← h, isFinite_unsigned] at hfinite
  rw [← h, value_unsigned] at hvalue
  exact ⟨hfinite, hvalue⟩

theorem value_nearest_natCast {n : ℕ} (h : n < 2 ^ 53) : value (doubleNearest n 1) = n := by
  obtain ⟨hlt, hunits⟩ := BinaryFormat.binary64.units_nearest_natCast (n := n) h (by decide) (by decide)
  rw [value, word, doubleNearest, unpack_ofBits, value_word hlt, hunits, Nat.cast_mul, Nat.cast_pow,
    Nat.cast_ofNat]
  exact mul_div_cancel_right₀ _ (by positivity)

/-- A rounding moves a number by a small part of it, unless it is very small. -/
theorem abs_roundedValue_sub_le {v : ℚ} (h : 1 / 2 ^ 31 ≤ v) :
    |roundedValue .binary64 v - v| ≤ v / 2 ^ 53 := by
  have hmin : Format.binary64.minExponent = -1074 := rfl
  have hbits : Format.binary64.mantissaBitsWithoutImplicit = 52 := rfl
  have hsmall : (2 : ℚ) ^ 52 * 2 ^ (-1074 : ℤ) ≤ 1 / 2 ^ 31 := by
    calc (2 : ℚ) ^ 52 * 2 ^ (-1074 : ℤ) ≤ 2 ^ 52 * 2 ^ (-83 : ℤ) :=
          mul_le_mul_of_nonneg_left (zpow_le_zpow_right₀ one_le_two (by decide)) (by positivity)
      _ = 1 / 2 ^ 31 := by norm_num
  refine Ieee.abs_roundedValue_sub_le ((by positivity : (0 : ℚ) < 1 / 2 ^ 31).trans_le h) ?_
  rw [hmin, hbits]
  exact hsmall.trans h

theorem value_quotient {m n : ℕ} (hm : m < 2 ^ 53) (hn : n < 2 ^ 53) (hle : m ≤ n) (hpos : 0 < n) :
    (doubleNearest m 1 / doubleNearest n 1).isFinite = true ∧
      value (doubleNearest m 1 / doubleNearest n 1) = roundedValue .binary64 (m / n) := by
  have hnum := value_nearest_natCast hm
  have hden := value_nearest_natCast hn
  have hpositive : (0 : ℚ) < n := by exact_mod_cast hpos
  have hword := unsigned_word_div (isFinite_nearest (hm.trans (by decide))) (isFinite_nearest (hn.trans (by decide)))
    ((Nat.cast_nonneg m).trans_eq hnum.symm) (hpositive.trans_eq hden.symm)
  have hone : (m : ℚ) / n ≤ 1 := (div_le_one hpositive).mpr (by exact_mod_cast hle)
  rw [hnum, hden] at hword
  exact value_of_unsigned hword (by positivity) (by linarith [le_largest])

theorem roundedValue_natCast {n : ℕ} (h : n < 2 ^ 53) : roundedValue .binary64 n = n := by
  have hvalue := value_nearest_natCast h
  have hfinite : (doubleNearest n 1).isFinite = true := isFinite_nearest (h.trans (by decide))
  have hpos : 0 ≤ value (doubleNearest n 1) := by
    rw [hvalue]
    positivity
  have hword : unsigned (word (doubleNearest n 1)) = nearest .binary64 (value (doubleNearest n 1)) := by
    have hrepacked := unsigned_repack (canonical_word (doubleNearest n 1)) hfinite hpos
    rwa [repack_of_canonical (canonical_word _)] at hrepacked
  have hlt : (n : ℚ) < 2 ^ 53 := by exact_mod_cast h
  rw [hvalue] at hword
  rw [← (value_of_unsigned hword (Nat.cast_nonneg n) (by linarith [le_largest])).2, hvalue]

end Double

end QpReferee

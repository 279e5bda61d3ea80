import Mathlib

/-!
# One rounding

The floating point operations of the language shift a whole significand to the right and keep two bits of
what falls off. Here the significand with the two bits is a function of a rational number, `extend`, and a
shift is a division by a power of two. So a rounding depends on nothing but the number that is rounded.

* `extend_shiftRight` : shifting divides by a power of two.
* `place` : the exponent of the last digit that a format keeps of a number.
* `rounded` : a number rounded to the nearest number of a format, with any exponent.
* `roundWithAccuracy_eq`, `round_eq` : **what the operations round to is the rounded number.**
* `rounded_within` : **below the middle between the largest finite number and the next nothing overflows.**
-/

namespace QpReferee.Ieee

open Float.Model (Format UnpackedFloat totalExponent)
open Float.Model.UnpackedFloat

/-! ## Whole part and rest -/

/-- What is left of a number after its whole part. -/
def rest (w : ℚ) : ℚ := w - ⌊w⌋₊

theorem rest_nonneg {w : ℚ} (hw : 0 ≤ w) : 0 ≤ rest w := sub_nonneg.mpr (Nat.floor_le hw)

theorem rest_lt_one (w : ℚ) : rest w < 1 := by
  have := Nat.lt_floor_add_one w
  unfold rest
  linarith

theorem rest_natCast (m : ℕ) : rest m = 0 := by
  rw [rest, Nat.floor_natCast, sub_self]

theorem rest_half (w : ℚ) : rest (w / 2) = ((⌊w⌋₊ % 2 : ℕ) + rest w) / 2 := by
  have hfloor : ⌊w / 2⌋₊ = ⌊w⌋₊ / 2 := Nat.floor_div_ofNat w 2
  have hdigit : (2 * (⌊w⌋₊ / 2 : ℕ) + (⌊w⌋₊ % 2 : ℕ) : ℚ) = ⌊w⌋₊ := by
    exact_mod_cast Nat.div_add_mod ⌊w⌋₊ 2
  unfold rest
  rw [hfloor]
  linarith

/-- The whole part of a number, whether the rest is at least one half, and whether it is neither nothing
nor one half. -/
def extend (w : ℚ) : ExtendedMantissa where
  mantissa := ⌊w⌋₊
  roundBit := decide (1 / 2 ≤ rest w)
  stickyBit := decide (rest w ≠ 0 ∧ rest w ≠ 1 / 2)

theorem extend_exact (m : ℕ) : ExtendedMantissa.ofMantissaAndAccuracy m .exact = extend m := by
  unfold extend
  rw [Nat.floor_natCast, rest_natCast]
  norm_num [ExtendedMantissa.ofMantissaAndAccuracy]

theorem extend_div (n : ℕ) {d : ℕ} (hd : 0 < d) :
    ExtendedMantissa.ofMantissaAndAccuracy (n / d) (accuracyOfFraction (n % d) d) = extend (n / d) := by
  have hpos : (0 : ℚ) < d := by exact_mod_cast hd
  have hfloor : ⌊(n / d : ℚ)⌋₊ = n / d := Nat.floor_div_eq_div n d
  have hrest : rest (n / d) = (n % d : ℕ) / d := by
    have hdigits : (d * (n / d : ℕ) + (n % d : ℕ) : ℚ) = n := by exact_mod_cast Nat.div_add_mod n d
    unfold rest
    rw [hfloor, eq_div_iff hpos.ne', sub_mul, div_mul_cancel₀ _ hpos.ne']
    linarith
  have hnone : rest (n / d) = 0 ↔ n % d = 0 := by
    rw [hrest, div_eq_zero_iff, or_iff_left hpos.ne', Nat.cast_eq_zero]
  have hhalf : rest (n / d) = 1 / 2 ↔ 2 * (n % d) = d := by
    rw [hrest, div_eq_div_iff hpos.ne' two_ne_zero, one_mul, mul_comm]
    exact_mod_cast Iff.rfl
  have hlarge : 1 / 2 ≤ rest (n / d) ↔ d ≤ 2 * (n % d) := by
    rw [hrest, div_le_div_iff₀ two_pos hpos, one_mul, mul_comm]
    exact_mod_cast Iff.rfl
  unfold extend accuracyOfFraction
  simp only [hfloor, hnone, hhalf, hlarge, ne_eq]
  by_cases hzero : n % d = 0
  · rw [if_pos hzero]
    simp [ExtendedMantissa.ofMantissaAndAccuracy, hzero, hd.ne']
  · rw [if_neg hzero]
    rcases lt_trichotomy (2 * (n % d)) d with hlt | heq | hgt
    · rw [Nat.compare_eq_lt.mpr hlt]
      simp [ExtendedMantissa.ofMantissaAndAccuracy, hzero, hlt, hlt.ne]
    · rw [Nat.compare_eq_eq.mpr heq]
      simp [ExtendedMantissa.ofMantissaAndAccuracy, heq]
    · rw [Nat.compare_eq_gt.mpr hgt]
      simp [ExtendedMantissa.ofMantissaAndAccuracy, hzero, hgt.le, hgt.ne']

theorem mod_two_cases (m : ℕ) :
    ((m % 2 : ℕ) : ℚ) = 0 ∧ m % 2 = 0 ∨ ((m % 2 : ℕ) : ℚ) = 1 ∧ m % 2 = 1 := by
  rcases Nat.mod_two_eq_zero_or_one m with h | h <;> simp [h]

theorem half_le_rest_half {w : ℚ} (hw : 0 ≤ w) : 1 / 2 ≤ rest (w / 2) ↔ ⌊w⌋₊ % 2 ≠ 0 := by
  have hnonneg := rest_nonneg hw
  have hlt := rest_lt_one w
  rw [rest_half]
  rcases mod_two_cases ⌊w⌋₊ with ⟨hcast, h⟩ | ⟨hcast, h⟩ <;> rw [hcast, h]
  · exact ⟨fun hle => by linarith, fun hne => absurd rfl hne⟩
  · exact ⟨fun _ => one_ne_zero, fun _ => by linarith⟩

/-- The new second bit remembers whether anything stood behind the dropped digit. -/
theorem rest_half_ne {w : ℚ} (hw : 0 ≤ w) :
    rest (w / 2) ≠ 0 ∧ rest (w / 2) ≠ 1 / 2 ↔ rest w ≠ 0 := by
  have hnonneg := rest_nonneg hw
  have hlt := rest_lt_one w
  rw [rest_half]
  rcases mod_two_cases ⌊w⌋₊ with ⟨hcast, -⟩ | ⟨hcast, -⟩ <;> rw [hcast]
  · exact ⟨fun h hzero => h.1 (by linarith), fun hne => ⟨fun h => hne (by linarith), fun h => by linarith⟩⟩
  · exact ⟨fun h hzero => h.2 (by linarith), fun hne => ⟨fun h => by linarith, fun h => hne (by linarith)⟩⟩

theorem extend_shiftRightOne {w : ℚ} (hw : 0 ≤ w) : (extend w).shiftRightOne = extend (w / 2) := by
  have hfloor : ⌊w / 2⌋₊ = ⌊w⌋₊ / 2 := Nat.floor_div_ofNat w 2
  -- the two bits together say whether there is a rest
  have hkept : (1 / 2 ≤ rest w ∨ rest w ≠ 0 ∧ rest w ≠ 1 / 2) ↔ rest w ≠ 0 := by
    constructor
    · rintro (hlarge | ⟨hne, -⟩)
      · exact fun h => by linarith
      · exact hne
    · intro hne
      by_cases hhalf : rest w = 1 / 2
      · exact .inl hhalf.ge
      · exact .inr ⟨hne, hhalf⟩
  unfold extend ExtendedMantissa.shiftRightOne
  rw [hfloor]
  congr 1
  · rw [Bool.eq_iff_iff, bne_iff_ne, decide_eq_true_eq]
    exact (half_le_rest_half hw).symm
  · rw [Bool.eq_iff_iff, Bool.or_eq_true, decide_eq_true_eq, decide_eq_true_eq, decide_eq_true_eq, hkept]
    exact (rest_half_ne hw).symm

theorem extend_shiftRight {w : ℚ} (hw : 0 ≤ w) (n : ℕ) : extend w >>> n = extend (w / 2 ^ n) := by
  change Nat.repeat ExtendedMantissa.shiftRightOne n (extend w) = _
  induction n with
  | zero => rw [pow_zero, div_one, Nat.repeat]
  | succ n ih =>
    rw [Nat.repeat, ih, extend_shiftRightOne (by positivity), pow_succ, div_div]

/-! ## The nearest whole number -/

theorem roundedMantissa_le (em : ExtendedMantissa) : em.roundedMantissa ≤ em.mantissa + 1 := by
  obtain ⟨m, round, sticky⟩ := em
  cases round <;> cases sticky <;>
    simp only [ExtendedMantissa.roundedMantissa, ExtendedMantissa.accuracy, Accuracy.roundToNearestEven] <;>
    omega

theorem roundedMantissa_of_low {em : ExtendedMantissa} (h : em.roundBit = false) :
    em.roundedMantissa = em.mantissa := by
  obtain ⟨m, round, sticky⟩ := em
  cases h
  cases sticky <;> rfl

theorem roundedMantissa_le_of_lt {w : ℚ} {n : ℕ} (hw : 0 ≤ w) (h : w < n + 1 / 2) :
    (extend w).roundedMantissa ≤ n := by
  have hfloor : (⌊w⌋₊ : ℚ) ≤ w := Nat.floor_le hw
  have hle : ⌊w⌋₊ ≤ n := by
    have hlt : (⌊w⌋₊ : ℚ) < (n + 1 : ℕ) := by
      push_cast
      linarith
    exact Nat.lt_succ_iff.mp (by exact_mod_cast hlt)
  rcases hle.lt_or_eq with hlt | heq
  · exact (roundedMantissa_le _).trans hlt
  · have hlow : (extend w).roundBit = false := by
      unfold extend rest
      rw [decide_eq_false_iff_not, heq]
      linarith
    rw [roundedMantissa_of_low hlow]
    exact hle

/-! ## The last digit -/

theorem log_mul_zpow {w : ℚ} (hw : 0 < w) (e : ℤ) : Int.log 2 (w * 2 ^ e) = Int.log 2 w + e := by
  have hpow : (0 : ℚ) < 2 ^ e := by positivity
  refine eq_of_forall_le_iff fun x => ?_
  rw [← sub_le_iff_le_add, ← Int.zpow_le_iff_le_log one_lt_two (mul_pos hw hpow),
    ← Int.zpow_le_iff_le_log one_lt_two hw, Nat.cast_ofNat, zpow_sub₀ two_ne_zero, div_le_iff₀ hpow]

variable (fmt : Format)

/-- The exponent of the last digit that a format keeps of a number. -/
def place (v : ℚ) : ℤ := fmt.targetExponent (Int.log 2 v + 1)

theorem minExponent_le_place (v : ℚ) : fmt.minExponent ≤ place fmt v := le_max_right _ _

theorem div_place_lt (v : ℚ) : v / 2 ^ place fmt v < 2 ^ fmt.mantissaBits := by
  have hlog : v < 2 ^ (Int.log 2 v + 1) := by exact_mod_cast Int.lt_zpow_succ_log_self one_lt_two v
  have hplace : Int.log 2 v + 1 ≤ fmt.mantissaBits + place fmt v := by
    have := le_max_left (Int.log 2 v + 1 - fmt.mantissaBits) fmt.minExponent
    unfold place Format.targetExponent
    linarith
  rw [div_lt_iff₀ (by positivity), ← zpow_natCast, ← zpow_add₀ two_ne_zero]
  exact hlog.trans_le (zpow_le_zpow_right₀ one_le_two hplace)

theorem place_le {v : ℚ} (hv : 0 < v) {top : ℤ} (htop : fmt.minExponent ≤ top)
    (h : v < 2 ^ fmt.mantissaBits * 2 ^ top) : place fmt v ≤ top := by
  rw [← zpow_natCast, ← zpow_add₀ two_ne_zero] at h
  have hlog : Int.log 2 v < fmt.mantissaBits + top :=
    (Int.lt_zpow_iff_log_lt one_lt_two hv).mp (by exact_mod_cast h)
  unfold place Format.targetExponent
  exact max_le (by linarith) htop

/-- The whole part is enough to find the last digit. -/
theorem targetExponent_eq {w : ℚ} (hw : 0 < w) {e : ℤ} (he : e ≤ place fmt (w * 2 ^ e)) :
    fmt.targetExponent (totalExponent ⌊w⌋₊ e) = place fmt (w * 2 ^ e) := by
  unfold place at he ⊢
  rw [log_mul_zpow hw] at he ⊢
  unfold totalExponent
  rw [Nat.log2_eq_log_two]
  -- below one the whole part says nothing about the size, but then both exponents are the smallest
  rcases le_or_gt 1 w with hone | hone
  · rw [Int.log_of_one_le_right 2 hone, add_right_comm]
  · have hlog : Int.log 2 w < 0 := (Int.lt_zpow_iff_log_lt one_lt_two hw).mp (by simpa using hone)
    have hbits : (2 : ℤ) ≤ fmt.mantissaBits := by
      have := fmt.hm
      unfold Format.mantissaBits
      omega
    rw [Nat.floor_eq_zero.mpr hone, Nat.log_zero_right]
    unfold Format.targetExponent at he ⊢
    omega

theorem mantissa_ofMantissaAndAccuracy (m : ℕ) (accuracy : Accuracy) :
    (ExtendedMantissa.ofMantissaAndAccuracy m accuracy).mantissa = m := by
  cases accuracy with
  | exact => rfl
  | inexact order => cases order <;> rfl

variable {fmt}

theorem shiftToTargetExponent_eq {w : ℚ} (hw : 0 < w) {e : ℤ} (he : e ≤ place fmt (w * 2 ^ e)) {m : ℕ}
    {accuracy : Accuracy} (hm : ExtendedMantissa.ofMantissaAndAccuracy m accuracy = extend w) :
    shiftToTargetExponent fmt m e accuracy =
      (extend (w * 2 ^ e / 2 ^ place fmt (w * 2 ^ e)), place fmt (w * 2 ^ e)) := by
  have hfloor : m = ⌊w⌋₊ := by
    rw [← mantissa_ofMantissaAndAccuracy m accuracy, hm]
    rfl
  obtain ⟨n, hn⟩ := Int.eq_ofNat_of_zero_le (sub_nonneg.mpr he)
  have hplace : place fmt (w * 2 ^ e) = e + n := by omega
  have hscale : w * 2 ^ e / 2 ^ (e + (n : ℤ)) = w / 2 ^ n := by
    rw [zpow_add₀ two_ne_zero, zpow_natCast, mul_comm w, mul_div_mul_left _ _ (by positivity)]
  unfold shiftToTargetExponent shiftToExponent
  dsimp only
  rw [hm, hfloor, targetExponent_eq fmt hw he, hn, Int.toNat_natCast, extend_shiftRight hw.le, hplace, hscale]

/-! ## Rounding -/

theorem implicit_pos (fmt : Format) : 0 < 2 ^ fmt.mantissaBitsWithoutImplicit := Nat.two_pow_pos _

/-- A number rounded to the nearest number of a format, ties to the even one. Its exponent has no bound. -/
def rounded (fmt : Format) (s : Sign) (v : ℚ) : UnpackedFloat :=
  let k := (extend (v / 2 ^ place fmt v)).roundedMantissa
  if hk : k = 0 then .zero s
  else if k < 2 ^ fmt.mantissaBits then .finite s k (place fmt v) (Nat.pos_of_ne_zero hk)
  else .finite s (2 ^ fmt.mantissaBitsWithoutImplicit) (place fmt v + 1) (implicit_pos fmt)

theorem roundedMantissa_le_pow {v : ℚ} (hv : 0 ≤ v) :
    (extend (v / 2 ^ place fmt v)).roundedMantissa ≤ 2 ^ fmt.mantissaBits := by
  refine roundedMantissa_le_of_lt (by positivity) ?_
  have := div_place_lt fmt v
  push_cast
  linarith

theorem shiftToTargetExponent_of_lt {k : ℕ} {e : ℤ} (hk : k < 2 ^ fmt.mantissaBits)
    (he : fmt.minExponent ≤ e) : shiftToTargetExponent fmt k e .exact = (extend k, e) := by
  have htarget : fmt.targetExponent (totalExponent k e) ≤ e := by
    have hlog : k.log2 < fmt.mantissaBits := by
      by_cases hzero : k = 0
      · rw [hzero, Nat.log2_zero]
        exact Nat.add_pos_left one_pos _
      · exact (Nat.log2_lt hzero).mpr hk
    unfold Format.targetExponent totalExponent
    omega
  have hshift : (fmt.targetExponent (totalExponent k e) - e).toNat = 0 := by omega
  unfold shiftToTargetExponent shiftToExponent
  dsimp only
  rw [hshift, extend_exact, Int.natCast_zero, add_zero]
  rfl

theorem shiftToTargetExponent_carry {e : ℤ} (he : fmt.minExponent ≤ e) :
    shiftToTargetExponent fmt (2 ^ fmt.mantissaBits) e .exact =
      (extend ((2 ^ fmt.mantissaBitsWithoutImplicit : ℕ) : ℚ), e + 1) := by
  have hplace : place fmt (((2 ^ fmt.mantissaBits : ℕ) : ℚ) * 2 ^ e) = e + 1 := by
    have hlog : Int.log 2 (((2 ^ fmt.mantissaBits : ℕ) : ℚ) * 2 ^ e) = fmt.mantissaBits + e := by
      rw [log_mul_zpow (by positivity), Int.log_natCast, Nat.log_pow one_lt_two]
    unfold place Format.targetExponent
    rw [hlog]
    omega
  have hhalf : ((2 ^ fmt.mantissaBits : ℕ) : ℚ) * 2 ^ e / 2 ^ (e + 1) =
      ((2 ^ fmt.mantissaBitsWithoutImplicit : ℕ) : ℚ) := by
    rw [zpow_add_one₀ two_ne_zero, Format.mantissaBits, pow_add]
    push_cast
    field_simp
  rw [shiftToTargetExponent_eq (by positivity) (by rw [hplace]; omega) (extend_exact _), hplace, hhalf]

/-- **What a significand with its two bits is rounded to is the rounded number.** -/
theorem roundWithAccuracy_eq (s : Sign) {w : ℚ} (hw : 0 < w) {e : ℤ} (he : e ≤ place fmt (w * 2 ^ e)) {m : ℕ}
    {accuracy : Accuracy} (hm : ExtendedMantissa.ofMantissaAndAccuracy m accuracy = extend w) :
    roundWithAccuracy fmt s m e accuracy = rounded fmt s (w * 2 ^ e) := by
  have hle := @roundedMantissa_le_pow fmt (w * 2 ^ e) (by positivity)
  have hmin := minExponent_le_place fmt (w * 2 ^ e)
  unfold roundWithAccuracy rounded
  rw [shiftToTargetExponent_eq hw he hm]
  dsimp only
  generalize (extend (w * 2 ^ e / 2 ^ place fmt (w * 2 ^ e))).roundedMantissa = k at hle ⊢
  -- the operations shift a second time, which does something only after a carry
  rcases hle.lt_or_eq with hlt | heq
  · have hkept : (extend (k : ℚ)).mantissa = k := Nat.floor_natCast k
    rw [shiftToTargetExponent_of_lt hlt hmin]
    dsimp only
    simp only [hkept, if_pos hlt]
  · have hkept : (extend ((2 ^ fmt.mantissaBitsWithoutImplicit : ℕ) : ℚ)).mantissa =
        2 ^ fmt.mantissaBitsWithoutImplicit := Nat.floor_natCast _
    subst heq
    rw [shiftToTargetExponent_carry hmin]
    dsimp only
    simp only [hkept, lt_irrefl, if_false, (implicit_pos fmt).ne', (Nat.two_pow_pos _).ne', dite_false]

/-- **What a sum of significands is rounded to is the rounded number.** -/
theorem round_eq (s : Sign) {m : ℕ} (hm : 0 < m) (e : ℤ) :
    UnpackedFloat.round fmt s m e = rounded fmt s (m * 2 ^ e) := by
  have hpos : (0 : ℚ) < m := by exact_mod_cast hm
  have hplace : fmt.targetExponent (totalExponent m e) = place fmt (m * 2 ^ e) := by
    unfold place totalExponent
    rw [log_mul_zpow hpos, Int.log_natCast, Nat.log2_eq_log_two, add_right_comm]
  have hscale (n : ℕ) : ((m <<< n : ℕ) : ℚ) * 2 ^ (e - n) = m * 2 ^ e := by
    rw [Nat.shiftLeft_eq, zpow_sub₀ two_ne_zero, zpow_natCast]
    push_cast
    field_simp
  unfold UnpackedFloat.round decreaseExponent
  dsimp only
  rw [hplace]
  -- digits are added only where the last one stands above the place
  generalize hn : (e - place fmt (m * 2 ^ e)).toNat = n
  have hshifted : (0 : ℚ) < (m <<< n : ℕ) := by
    rw [Nat.shiftLeft_eq]
    push_cast
    positivity
  have hlow : e - n ≤ place fmt (((m <<< n : ℕ) : ℚ) * 2 ^ (e - n)) := by
    rw [hscale]
    omega
  rw [roundWithAccuracy_eq s hshifted hlow (extend_exact _), hscale]

/-- The number zero, or one whose last digit has at most the given exponent. -/
def Within (top : ℤ) : UnpackedFloat → Prop
  | .zero _ => True
  | .finite _ _ e _ => e ≤ top
  | _ => False

/-- **Below the middle between the largest finite number and the next nothing overflows.** -/
theorem rounded_within (s : Sign) {v : ℚ} (hv : 0 < v) {top : ℤ} (htop : fmt.minExponent ≤ top)
    (h : v < (2 ^ fmt.mantissaBits - 1 / 2) * 2 ^ top) : Within top (rounded fmt s v) := by
  have hplace : place fmt v ≤ top := by
    refine place_le fmt hv htop (h.trans ?_)
    exact mul_lt_mul_of_pos_right (by linarith) (by positivity)
  -- a carry at the top would round a number up that is below the middle
  have hround : 2 ^ fmt.mantissaBits ≤ (extend (v / 2 ^ place fmt v)).roundedMantissa →
      place fmt v ≠ top := by
    intro hcarry htop
    have hlt : v / 2 ^ place fmt v < ((2 ^ fmt.mantissaBits - 1 : ℕ) : ℚ) + 1 / 2 := by
      rw [div_lt_iff₀ (by positivity), htop, Nat.cast_sub Nat.one_le_two_pow]
      push_cast
      linarith
    have hle := roundedMantissa_le_of_lt (by positivity) hlt
    have hpos := Nat.two_pow_pos fmt.mantissaBits
    omega
  unfold rounded
  dsimp only
  split_ifs with hzero hlt
  · trivial
  · exact hplace
  · exact Int.add_one_le_iff.mpr (lt_of_le_of_ne hplace (hround (not_lt.mp hlt)))

end QpReferee.Ieee

import QpReferee.Proofs.Ieee.Order

/-!
# Rounding is monotone

A larger number is never rounded to a smaller one, and a number of the format is not rounded at all. So
sums and products of numbers that are not below zero are in the order of their operands, also where they
overflow.

* `roundedValue` : the value of a rounded number; `roundedValue_mono` : **it is monotone.**
* `rounded_of_canonical` : a number of the format rounds to itself.
* `nearest` : the word of a number; `nearest_le_nearest` : words are in the order of their numbers.
* `repack_add_le`, `repack_mul_le` : **sums and products are monotone.**
-/

namespace QpReferee.Ieee

open Float.Model (Format UnpackedFloat)
open Float.Model.UnpackedFloat

variable {fmt : Format} {v w : ℚ}

/-! ## The nearest whole number -/

theorem le_roundedMantissa (em : ExtendedMantissa) : em.mantissa ≤ em.roundedMantissa := by
  obtain ⟨m, round, sticky⟩ := em
  cases round <;> cases sticky <;>
    simp only [ExtendedMantissa.roundedMantissa, ExtendedMantissa.accuracy, Accuracy.roundToNearestEven] <;>
    omega

theorem roundedMantissa_of_rest_lt (h : rest w < 1 / 2) : (extend w).roundedMantissa = ⌊w⌋₊ :=
  roundedMantissa_of_low (decide_eq_false h.not_ge)

theorem roundedMantissa_of_rest_eq (h : rest w = 1 / 2) :
    (extend w).roundedMantissa = ⌊w⌋₊ + ⌊w⌋₊ % 2 := by
  have hround : decide (1 / 2 ≤ rest w) = true := decide_eq_true h.ge
  have hsticky : decide (rest w ≠ 0 ∧ rest w ≠ 1 / 2) = false := decide_eq_false fun hne => hne.2 h
  unfold extend
  rw [hround, hsticky]
  simp only [ExtendedMantissa.roundedMantissa, ExtendedMantissa.accuracy, Accuracy.roundToNearestEven]

theorem roundedMantissa_of_lt_rest (h : 1 / 2 < rest w) : (extend w).roundedMantissa = ⌊w⌋₊ + 1 := by
  have hround : decide (1 / 2 ≤ rest w) = true := decide_eq_true h.le
  have hsticky : decide (rest w ≠ 0 ∧ rest w ≠ 1 / 2) = true :=
    decide_eq_true ⟨(one_half_pos.trans h).ne', h.ne'⟩
  unfold extend
  rw [hround, hsticky]
  rfl

theorem roundedMantissa_mono (h : v ≤ w) : (extend v).roundedMantissa ≤ (extend w).roundedMantissa := by
  rcases (Nat.floor_mono h).lt_or_eq with hlt | heq
  · exact (roundedMantissa_le _).trans (hlt.trans_le (le_roundedMantissa (extend w)))
  -- with one whole part the rests are in order
  · have hrest : rest v ≤ rest w := by
      unfold rest
      rw [heq]
      linarith
    have hdigit := Nat.mod_lt ⌊w⌋₊ two_pos
    rcases lt_trichotomy (rest v) (1 / 2) with hv | hv | hv
    · rw [roundedMantissa_of_rest_lt hv, heq]
      exact le_roundedMantissa (extend w)
    · rw [roundedMantissa_of_rest_eq hv, heq]
      rcases (hv ▸ hrest).lt_or_eq with hw | hw
      · rw [roundedMantissa_of_lt_rest hw]
        omega
      · rw [roundedMantissa_of_rest_eq hw.symm]
    · rw [roundedMantissa_of_lt_rest hv, roundedMantissa_of_lt_rest (hv.trans_le hrest), heq]

theorem roundedMantissa_natCast (m : ℕ) : (extend m).roundedMantissa = m := by
  have hrest : rest (m : ℚ) < 1 / 2 := by
    rw [rest_natCast]
    exact one_half_pos
  rw [roundedMantissa_of_rest_lt hrest, Nat.floor_natCast]

/-! ## The rounded value -/

theorem place_mono (fmt : Format) (hv : 0 < v) (h : v ≤ w) : place fmt v ≤ place fmt w := by
  have hlog : Int.log 2 v ≤ Int.log 2 w := Int.log_mono_right hv h
  unfold place Format.targetExponent
  omega

theorem place_eq_or_le (fmt : Format) (hv : 0 < v) : place fmt v = fmt.minExponent ∨
    ((2 ^ fmt.mantissaBitsWithoutImplicit : ℕ) : ℚ) ≤ v / 2 ^ place fmt v := by
  by_cases hplace : place fmt v = fmt.minExponent
  · exact .inl hplace
  · right
    have hlog : fmt.mantissaBitsWithoutImplicit + place fmt v = Int.log 2 v := by
      unfold place Format.targetExponent Format.mantissaBits at hplace ⊢
      omega
    rw [le_div_iff₀ (by positivity)]
    push_cast
    rw [← zpow_natCast, ← zpow_add₀ two_ne_zero, hlog]
    exact_mod_cast Int.zpow_log_le_self one_lt_two hv

theorem place_eq_or_full (fmt : Format) (hv : 0 < v) : place fmt v = fmt.minExponent ∨
    2 ^ fmt.mantissaBitsWithoutImplicit ≤ (extend (v / 2 ^ place fmt v)).roundedMantissa := by
  rcases place_eq_or_le fmt hv with hplace | hfull
  · exact .inl hplace
  · right
    rw [← roundedMantissa_natCast (2 ^ fmt.mantissaBitsWithoutImplicit)]
    exact roundedMantissa_mono hfull

def roundedValue (fmt : Format) (v : ℚ) : ℚ :=
  (extend (v / 2 ^ place fmt v)).roundedMantissa * 2 ^ place fmt v

theorem two_pow_mantissaBits_mul (fmt : Format) (e : ℤ) :
    (2 : ℚ) ^ fmt.mantissaBits * 2 ^ e = 2 ^ fmt.mantissaBitsWithoutImplicit * 2 ^ (e + 1) := by
  rw [Format.mantissaBits, zpow_add_one₀ two_ne_zero, pow_add]
  ring

theorem roundedValue_le (hv : 0 ≤ v) : roundedValue fmt v ≤ 2 ^ fmt.mantissaBits * 2 ^ place fmt v := by
  have hle : (((extend (v / 2 ^ place fmt v)).roundedMantissa : ℕ) : ℚ) ≤ 2 ^ fmt.mantissaBits := by
    exact_mod_cast roundedMantissa_le_pow hv
  exact mul_le_mul_of_nonneg_right hle (by positivity)

/-- **Rounding is monotone.** -/
theorem roundedValue_mono (hv : 0 < v) (h : v ≤ w) : roundedValue fmt v ≤ roundedValue fmt w := by
  rcases (place_mono fmt hv h).lt_or_eq with hlt | heq
  -- the larger number has all its digits, the last of which stands above the last of the other one
  · have hplace : place fmt w ≠ fmt.minExponent := by
      have := minExponent_le_place fmt v
      omega
    have hfull : ((2 : ℚ) ^ fmt.mantissaBitsWithoutImplicit) ≤
        (extend (w / 2 ^ place fmt w)).roundedMantissa := by
      exact_mod_cast (place_eq_or_full fmt (hv.trans_le h)).resolve_left hplace
    calc roundedValue fmt v ≤ 2 ^ fmt.mantissaBits * 2 ^ place fmt v := roundedValue_le hv.le
      _ = 2 ^ fmt.mantissaBitsWithoutImplicit * 2 ^ (place fmt v + 1) := two_pow_mantissaBits_mul fmt _
      _ ≤ 2 ^ fmt.mantissaBitsWithoutImplicit * 2 ^ place fmt w :=
        mul_le_mul_of_nonneg_left (zpow_le_zpow_right₀ one_le_two hlt) (by positivity)
      _ ≤ roundedValue fmt w := mul_le_mul_of_nonneg_right hfull (by positivity)
  · unfold roundedValue
    rw [heq]
    have hdiv : v / 2 ^ place fmt w ≤ w / 2 ^ place fmt w := div_le_div_of_nonneg_right h (by positivity)
    exact mul_le_mul_of_nonneg_right (by exact_mod_cast roundedMantissa_mono hdiv) (by positivity)

theorem value_rounded (hv : 0 ≤ v) : value (rounded fmt .positive v) = roundedValue fmt v := by
  have hle : (extend (v / 2 ^ place fmt v)).roundedMantissa ≤ 2 ^ fmt.mantissaBits :=
    roundedMantissa_le_pow hv
  unfold rounded roundedValue
  dsimp only
  split_ifs with hzero hlt
  · rw [hzero, Nat.cast_zero, zero_mul]
    rfl
  · rfl
  · rw [hle.antisymm (not_lt.mp hlt)]
    show ((2 ^ fmt.mantissaBitsWithoutImplicit : ℕ) : ℚ) * 2 ^ (place fmt v + 1) = _
    push_cast
    exact (two_pow_mantissaBits_mul fmt _).symm

theorem within_rounded_iff (s : Sign) (hv : 0 < v) {top : ℤ} (htop : fmt.minExponent ≤ top) :
    Within top (rounded fmt s v) ↔ roundedValue fmt v < 2 ^ fmt.mantissaBits * 2 ^ top := by
  have hle : (extend (v / 2 ^ place fmt v)).roundedMantissa ≤ 2 ^ fmt.mantissaBits :=
    roundedMantissa_le_pow hv.le
  have hfull := place_eq_or_full fmt hv
  unfold rounded roundedValue
  dsimp only
  generalize (extend (v / 2 ^ place fmt v)).roundedMantissa = k at *
  split_ifs with hzero hlt
  · rw [hzero, Nat.cast_zero, zero_mul]
    exact iff_of_true trivial (by positivity)
  · show place fmt v ≤ top ↔ _
    constructor
    · intro hplace
      have hdigits : (k : ℚ) < 2 ^ fmt.mantissaBits := by exact_mod_cast hlt
      exact mul_lt_mul hdigits (zpow_le_zpow_right₀ one_le_two hplace) (by positivity) (by positivity)
    · intro hvalue
      by_contra hplace
      have hdigits : (2 : ℚ) ^ fmt.mantissaBitsWithoutImplicit ≤ k := by
        exact_mod_cast hfull.resolve_left (by omega)
      rw [two_pow_mantissaBits_mul] at hvalue
      exact absurd hvalue (not_lt.mpr (mul_le_mul hdigits
        (zpow_le_zpow_right₀ one_le_two (by omega)) (by positivity) (by positivity)))
  · rw [hle.antisymm (not_lt.mp hlt), Nat.cast_pow, Nat.cast_ofNat,
      mul_lt_mul_iff_right₀ (by positivity), zpow_lt_zpow_iff_right₀ one_lt_two]
    exact Int.add_one_le_iff

theorem canonical_rounded (s : Sign) (hv : 0 < v) (h : Within (maxExponent fmt) (rounded fmt s v)) :
    Canonical fmt (rounded fmt s v) := by
  have hfull := place_eq_or_full fmt hv
  have hmin := minExponent_le_place fmt v
  have hpow := two_pow_mantissaBits fmt
  have hpos := implicit_pos fmt
  unfold rounded at h ⊢
  dsimp only at h ⊢
  split_ifs at h ⊢ with hzero hlt
  · trivial
  · exact ⟨hlt, hmin, h, hfull.symm⟩
  · exact ⟨by omega, by omega, h, .inl le_rfl⟩

theorem rounded_of_canonical (s : Sign) {m : ℕ} {e : ℤ} (hm : 0 < m) (h : InRange fmt m e) :
    rounded fmt s (m * 2 ^ e) = .finite s m e hm := by
  have hplace : place fmt (m * 2 ^ e) = e := by
    have hpos : (0 : ℚ) < m := by exact_mod_cast hm
    have hhigh : Nat.log 2 m < fmt.mantissaBits := Nat.log_lt_of_lt_pow hm.ne' h.digits
    have hlow := h.low
    unfold place Format.targetExponent
    rw [log_mul_zpow hpos, Int.log_natCast]
    rcases h.full with hfull | he
    · have hdigits := Nat.le_log_of_pow_le one_lt_two hfull
      unfold Format.mantissaBits at hhigh ⊢
      omega
    · omega
  have hscale : (m : ℚ) * 2 ^ e / 2 ^ e = m := mul_div_cancel_right₀ _ (by positivity)
  unfold rounded
  simp only [hplace, hscale, roundedMantissa_natCast, dif_neg hm.ne', if_pos h.digits]

/-! ## The word of a number -/

theorem repack_of_not_within (s : Sign) {m : ℕ} {e : ℤ} (hm : 0 < m) (h : maxExponent fmt < e) :
    repack fmt (.finite s m e hm) = .infinity s := by
  have hcapacity := two_pow_exponentBits fmt
  have hpack : pack fmt (.finite s m e hm) = pack fmt (.infinity s) := by
    unfold maxExponent at h
    unfold pack
    dsimp only
    rw [if_pos (by omega)]
  unfold repack
  rw [hpack]
  exact repack_infinity s

/-- The word of a number that is not below zero. -/
def nearest (fmt : Format) (v : ℚ) : UnpackedFloat := repack fmt (roundedSum fmt v)

theorem nearest_zero : nearest fmt 0 = .zero .positive := by
  unfold nearest roundedSum
  rw [if_pos rfl]
  exact unpack_packedZero

theorem nearest_of_pos (hv : 0 < v) : nearest fmt v = repack fmt (rounded fmt .positive v) := by
  unfold nearest roundedSum
  rw [if_neg hv.ne', if_pos hv]

theorem nearest_cases (fmt : Format) (hv : 0 < v) :
    Within (maxExponent fmt) (rounded fmt .positive v) ∧ nearest fmt v = rounded fmt .positive v ∨
      ¬Within (maxExponent fmt) (rounded fmt .positive v) ∧ nearest fmt v = .infinity .positive := by
  rw [nearest_of_pos hv]
  by_cases h : Within (maxExponent fmt) (rounded fmt .positive v)
  · exact .inl ⟨h, repack_of_canonical (canonical_rounded .positive hv h)⟩
  · refine .inr ⟨h, ?_⟩
    unfold rounded at h ⊢
    dsimp only at h ⊢
    split_ifs at h ⊢ with hzero hlt
    · exact absurd trivial h
    · exact repack_of_not_within .positive _ (not_le.mp h)
    · exact repack_of_not_within .positive _ (not_le.mp h)

theorem zero_le_rounded (v : ℚ) : (UnpackedFloat.zero .positive).le (rounded fmt .positive v) = true := by
  unfold rounded
  dsimp only
  split_ifs <;> rfl

theorem isFinite_of_within {top : ℤ} {u : UnpackedFloat} (h : Within top u) : u.isFinite = true := by
  cases u with
  | notANumber => exact h.elim
  | infinity s => exact h.elim
  | zero s => rfl
  | finite s m e hm => rfl

theorem zero_le_nearest (fmt : Format) (hv : 0 ≤ v) :
    (UnpackedFloat.zero .positive).le (nearest fmt v) = true := by
  rcases hv.lt_or_eq with hv | rfl
  · rcases nearest_cases fmt hv with ⟨-, heq⟩ | ⟨-, heq⟩
    · rw [heq]
      exact zero_le_rounded v
    · rw [heq]
      rfl
  · rw [nearest_zero]
    rfl

/-- **Words are in the order of their numbers**, also where they overflow. -/
theorem nearest_le_nearest (hwide : 0 < maxExponent fmt) (hv : 0 ≤ v) (h : v ≤ w) :
    (nearest fmt v).le (nearest fmt w) = true := by
  have htop := minExponent_le_maxExponent hwide
  rcases hv.lt_or_eq with hv | rfl
  · have hw := hv.trans_le h
    rcases nearest_cases fmt hw with ⟨hwithin, heq⟩ | ⟨-, heq⟩
    -- what is below a number that does not overflow does not overflow either
    · have hsmaller : Within (maxExponent fmt) (rounded fmt .positive v) :=
        (within_rounded_iff _ hv htop).mpr
          ((roundedValue_mono hv h).trans_lt ((within_rounded_iff _ hw htop).mp hwithin))
      have heq' := ((nearest_cases fmt hv).resolve_right fun hover => hover.1 hsmaller).2
      rw [heq', heq, le_iff_value_le (canonical_rounded _ hv hsmaller) (canonical_rounded _ hw hwithin)
        (isFinite_of_within hsmaller) (isFinite_of_within hwithin), value_rounded hv.le, value_rounded hw.le]
      exact roundedValue_mono hv h
    · rw [heq]
      exact le_infinity (isNaN_of_le (zero_le_nearest fmt hv.le)).2
  · rw [nearest_zero]
    exact zero_le_nearest fmt h

/-! ## Sums and products -/

section

variable {a b c d : UnpackedFloat}

/-- A word without the sign of a zero, which the order does not see. -/
def unsigned : UnpackedFloat → UnpackedFloat
  | .zero _ => .zero .positive
  | u => u

theorem unsigned_le (a b : UnpackedFloat) : (unsigned a).le b = a.le b := by
  cases a with
  | zero s =>
    cases b with
    | infinity t => cases t <;> rfl
    | finite t n f hn => cases t <;> rfl
    | _ => rfl
  | _ => rfl

theorem le_unsigned (a b : UnpackedFloat) : a.le (unsigned b) = a.le b := by
  cases b with
  | zero t =>
    cases a with
    | infinity s => cases s <;> rfl
    | finite s m e hm => cases s <;> rfl
    | _ => rfl
  | _ => rfl

theorem unsigned_nearest (hv : 0 ≤ v) : unsigned (nearest fmt v) = nearest fmt v := by
  rcases hv.lt_or_eq with hv | rfl
  · rcases nearest_cases fmt hv with ⟨-, heq⟩ | ⟨-, heq⟩
    · rw [heq]
      unfold rounded
      dsimp only
      split_ifs <;> rfl
    · rw [heq]
      rfl
  · rw [nearest_zero]
    rfl

theorem eq_infinity_or_zero_le_value (h : (UnpackedFloat.zero .positive).le a = true) :
    a = .infinity .positive ∨ a.isFinite = true ∧ 0 ≤ value a := by
  cases a with
  | notANumber => cases h
  | infinity s =>
    cases s with
    | positive => exact .inl rfl
    | negative => cases h
  | zero s => exact .inr ⟨rfl, le_rfl⟩
  | finite s m e hm =>
    cases s with
    | positive => exact .inr ⟨rfl, mul_nonneg (by positivity) (by positivity)⟩
    | negative => cases h

theorem zero_le_value (h : (UnpackedFloat.zero .positive).le a = true) (hfinite : a.isFinite = true) :
    0 ≤ value a := by
  rcases eq_infinity_or_zero_le_value h with rfl | ⟨-, hpos⟩
  · cases hfinite
  · exact hpos

theorem zero_le_of_le (ha : Canonical fmt a) (hb : Canonical fmt b)
    (hpa : (UnpackedFloat.zero .positive).le a = true) (hab : a.le b = true) :
    (UnpackedFloat.zero .positive).le b = true := by
  have hzero : Canonical fmt (.zero .positive) := trivial
  exact le_trans hzero ha hb hpa hab

theorem zero_or_positive (hfinite : a.isFinite = true) (hpos : 0 ≤ value a) :
    (∃ s, a = .zero s) ∨ ∃ m e hm, a = .finite .positive m e hm := by
  cases a with
  | notANumber => cases hfinite
  | infinity s => cases hfinite
  | zero s => exact .inl ⟨s, rfl⟩
  | finite s m e hm =>
    cases s with
    | positive => exact .inr ⟨m, e, hm, rfl⟩
    | negative =>
      have hmagnitude : (0 : ℚ) < m * 2 ^ e := by positivity
      exact absurd hpos (neg_neg_of_pos hmagnitude).not_ge

theorem unsigned_repack (ha : Canonical fmt a) (hfinite : a.isFinite = true) (hpos : 0 ≤ value a) :
    unsigned (repack fmt a) = nearest fmt (value a) := by
  rw [repack_of_canonical ha]
  rcases zero_or_positive hfinite hpos with ⟨s, rfl⟩ | ⟨m, e, hm, rfl⟩
  · exact nearest_zero.symm
  · show UnpackedFloat.finite .positive m e hm = nearest fmt (m * 2 ^ e)
    rw [nearest_of_pos (by positivity), rounded_of_canonical _ hm ha, repack_of_canonical ha]

/-- **A sum is the word of the exact sum**, but for the sign of a zero. -/
theorem unsigned_add (ha : Canonical fmt a) (hb : Canonical fmt b) (hfa : a.isFinite = true)
    (hfb : b.isFinite = true) (hpa : 0 ≤ value a) (hpb : 0 ≤ value b) :
    unsigned (repack fmt (add fmt a b)) = nearest fmt (value a + value b) := by
  rcases zero_or_positive hfa hpa with ⟨s, rfl⟩ | ⟨m, e, hm, rfl⟩
  · rw [show value (.zero s) = 0 from rfl, zero_add]
    rcases zero_or_positive hfb hpb with ⟨t, rfl⟩ | ⟨n, f, hn, rfl⟩
    · cases s <;> cases t <;> exact unsigned_repack trivial rfl le_rfl
    · exact unsigned_repack hb hfb hpb
  · rcases zero_or_positive hfb hpb with ⟨t, rfl⟩ | ⟨n, f, hn, rfl⟩
    · rw [show value (.zero t) = 0 from rfl, add_zero]
      exact unsigned_repack ha hfa hpa
    · rw [add_eq]
      exact unsigned_nearest (add_nonneg hpa hpb)

/-- **A product is the word of the exact product**, but for the sign of a zero. -/
theorem unsigned_mul (ha : Canonical fmt a) (hb : Canonical fmt b) (hfa : a.isFinite = true)
    (hfb : b.isFinite = true) (hpa : 0 ≤ value a) (hpb : 0 ≤ value b) :
    unsigned (repack fmt (mul fmt a b)) = nearest fmt (value a * value b) := by
  rcases zero_or_positive hfa hpa with ⟨s, rfl⟩ | ⟨m, e, hm, rfl⟩
  · rw [show value (.zero s) = 0 from rfl, zero_mul]
    rcases zero_or_positive hfb hpb with ⟨t, rfl⟩ | ⟨n, f, hn, rfl⟩ <;>
      exact unsigned_repack (a := .zero _) trivial rfl le_rfl
  · rcases zero_or_positive hfb hpb with ⟨t, rfl⟩ | ⟨n, f, hn, rfl⟩
    · rw [show value (.zero t) = 0 from rfl, mul_zero]
      exact unsigned_repack (a := .zero _) trivial rfl le_rfl
    · have hproduct : (0 : ℚ) < m * 2 ^ e * (n * 2 ^ f) := by positivity
      rw [mul_eq .positive .positive hm hn ha hb]
      show unsigned (repack fmt (rounded fmt .positive (m * 2 ^ e * (n * 2 ^ f)))) =
        nearest fmt (m * 2 ^ e * (n * 2 ^ f))
      rw [← nearest_of_pos hproduct]
      exact unsigned_nearest hproduct.le

theorem infinity_add (h : (UnpackedFloat.zero .positive).le a = true) :
    add fmt (.infinity .positive) a = .infinity .positive := by
  rcases eq_infinity_or_zero_le_value h with rfl | ⟨hfinite, hpos⟩
  · rfl
  · rcases zero_or_positive hfinite hpos with ⟨s, rfl⟩ | ⟨m, e, hm, rfl⟩ <;> rfl

theorem add_infinity (h : (UnpackedFloat.zero .positive).le a = true) :
    add fmt a (.infinity .positive) = .infinity .positive := by
  rcases eq_infinity_or_zero_le_value h with rfl | ⟨hfinite, hpos⟩
  · rfl
  · rcases zero_or_positive hfinite hpos with ⟨s, rfl⟩ | ⟨m, e, hm, rfl⟩ <;> rfl

theorem isNaN_of_unsigned_eq (hv : 0 ≤ v) (h : unsigned a = nearest fmt v) : a.isNaN = false := by
  have hle := zero_le_nearest fmt hv
  rw [← h, le_unsigned] at hle
  exact (isNaN_of_le hle).2

theorem repack_notANumber : repack fmt .notANumber = .notANumber := unpack_packedNaN

theorem isNaN_repack (u : UnpackedFloat) : (repack fmt u).isNaN = u.isNaN := by
  have hwithin : Within (maxExponent fmt) u → (repack fmt u).isNaN = false := fun h =>
    isNaN_of_isFinite ((isFinite_repack u).mpr h)
  cases u with
  | notANumber =>
    rw [repack_notANumber]
  | infinity s => rw [repack_infinity]
  | zero s => exact hwithin trivial
  | finite s m e hm =>
    rcases le_or_gt e (maxExponent fmt) with hle | hgt
    · exact hwithin hle
    · rw [repack_of_not_within s hm hgt]
      rfl

theorem isNaN_roundedSum (w : ℚ) : (roundedSum fmt w).isNaN = false := by
  have hrounded (s : Sign) (w : ℚ) : (rounded fmt s w).isNaN = false := by
    unfold rounded
    dsimp only
    split_ifs <;> rfl
  unfold roundedSum
  split_ifs
  · rfl
  · exact hrounded _ _
  · exact hrounded _ _

theorem isNaN_add_iff : (add fmt a b).isNaN = true ↔
    a.isNaN = true ∨ b.isNaN = true ∨ a.isInf = true ∧ b.isInf = true ∧ a.beq b = false := by
  cases a with
  | notANumber => simp [add, UnpackedFloat.isNaN]
  | infinity s =>
    cases b with
    | infinity t =>
      have hsigns : (UnpackedFloat.infinity s).beq (.infinity t) = (s == t) := by
        cases s <;> cases t <;> rfl
      rw [hsigns]
      cases s <;> cases t <;> simp [add, UnpackedFloat.isNaN, UnpackedFloat.isInf]
    | _ => simp [add, UnpackedFloat.isNaN, UnpackedFloat.isInf]
  | zero s =>
    cases b with
    | zero t => cases s <;> cases t <;> simp [add, UnpackedFloat.isNaN, UnpackedFloat.isInf]
    | _ => simp [add, UnpackedFloat.isNaN, UnpackedFloat.isInf]
  | finite s m e hm =>
    cases b with
    | finite t n f hn =>
      rw [add_eq, isNaN_roundedSum]
      simp [UnpackedFloat.isNaN, UnpackedFloat.isInf]
    | _ => simp [add, UnpackedFloat.isNaN, UnpackedFloat.isInf]

/-- If an operation keeps what is no number, the operands of a number are numbers. -/
theorem isNaN_of_absorbing {op : UnpackedFloat → UnpackedFloat → UnpackedFloat}
    (h : (repack fmt (op a b)).isNaN = false) (hleft : ∀ v, op .notANumber v = .notANumber)
    (hright : ∀ u, op u .notANumber = .notANumber) : a.isNaN = false ∧ b.isNaN = false := by
  rw [isNaN_repack] at h
  constructor
  · cases a with
    | notANumber => rw [hleft] at h; cases h
    | _ => rfl
  · cases b with
    | notANumber => rw [hright] at h; cases h
    | _ => rfl

theorem isNaN_of_add (h : (repack fmt (add fmt a b)).isNaN = false) : a.isNaN = false ∧ b.isNaN = false :=
  isNaN_of_absorbing h (fun _ => rfl) fun u => by cases u <;> rfl

theorem isNaN_of_mul (h : (repack fmt (mul fmt a b)).isNaN = false) : a.isNaN = false ∧ b.isNaN = false :=
  isNaN_of_absorbing h (fun _ => rfl) fun u => by cases u <;> rfl

theorem isNaN_of_sub (h : (repack fmt (sub fmt a b)).isNaN = false) : a.isNaN = false ∧ b.isNaN = false :=
  isNaN_of_absorbing h (fun _ => rfl) fun u => by cases u <;> rfl

theorem isNaN_of_div (h : (repack fmt (div fmt a b)).isNaN = false) : a.isNaN = false ∧ b.isNaN = false :=
  isNaN_of_absorbing h (fun _ => rfl) fun u => by cases u <;> rfl

theorem isNaN_add (ha : Canonical fmt a) (hb : Canonical fmt b)
    (hpa : (UnpackedFloat.zero .positive).le a = true) (hpb : (UnpackedFloat.zero .positive).le b = true) :
    (repack fmt (add fmt a b)).isNaN = false := by
  rcases eq_infinity_or_zero_le_value hpa with rfl | ⟨hfa, hva⟩
  · rw [infinity_add hpb, repack_infinity]
    rfl
  · rcases eq_infinity_or_zero_le_value hpb with rfl | ⟨hfb, hvb⟩
    · rw [add_infinity hpa, repack_infinity]
      rfl
    · exact isNaN_of_unsigned_eq (add_nonneg hva hvb) (unsigned_add ha hb hfa hfb hva hvb)

/-- **Sums are monotone.** -/
theorem repack_add_le (hwide : 0 < maxExponent fmt) (ha : Canonical fmt a) (hb : Canonical fmt b)
    (hc : Canonical fmt c) (hd : Canonical fmt d) (hpa : (UnpackedFloat.zero .positive).le a = true)
    (hab : a.le b = true) (hpc : (UnpackedFloat.zero .positive).le c = true) (hcd : c.le d = true) :
    (repack fmt (add fmt a c)).le (repack fmt (add fmt b d)) = true := by
  have hpb := zero_le_of_le ha hb hpa hab
  have hpd := zero_le_of_le hc hd hpc hcd
  have hnumber := isNaN_add ha hc hpa hpc
  rcases eq_infinity_or_zero_le_value hpb with rfl | ⟨hfb, hvb⟩
  · rw [infinity_add hpd, repack_infinity]
    exact le_infinity hnumber
  · rcases eq_infinity_or_zero_le_value hpd with rfl | ⟨hfd, hvd⟩
    · rw [add_infinity hpb, repack_infinity]
      exact le_infinity hnumber
    -- the larger operands are finite, and so are the smaller ones
    · have hfa := isFinite_of_le hpa hab hfb
      have hfc := isFinite_of_le hpc hcd hfd
      have hva := zero_le_value hpa hfa
      have hvc := zero_le_value hpc hfc
      rw [← unsigned_le, ← le_unsigned, unsigned_add ha hc hfa hfc hva hvc,
        unsigned_add hb hd hfb hfd hvb hvd]
      exact nearest_le_nearest hwide (add_nonneg hva hvc)
        (add_le_add ((le_iff_value_le ha hb hfa hfb).mp hab) ((le_iff_value_le hc hd hfc hfd).mp hcd))

theorem eq_positive_of_mul_infinity (hfinite : a.isFinite = true) (hpos : 0 ≤ value a)
    (hnumber : (repack fmt (mul fmt a (.infinity .positive))).isNaN = false) :
    ∃ m e hm, a = .finite .positive m e hm := by
  rcases zero_or_positive hfinite hpos with ⟨s, rfl⟩ | hpositive
  · rw [show mul fmt (.zero s) (.infinity .positive) = .notANumber from rfl, repack_notANumber] at hnumber
    cases hnumber
  · exact hpositive

theorem zero_le_repack_mul (ha : Canonical fmt a) (hb : Canonical fmt b)
    (hpa : (UnpackedFloat.zero .positive).le a = true) (hfa : a.isFinite = true)
    (hpb : (UnpackedFloat.zero .positive).le b = true)
    (hnumber : (repack fmt (mul fmt a b)).isNaN = false) :
    (UnpackedFloat.zero .positive).le (repack fmt (mul fmt a b)) = true := by
  have hva := zero_le_value hpa hfa
  rcases eq_infinity_or_zero_le_value hpb with rfl | ⟨hfb, hvb⟩
  · obtain ⟨m, e, hm, rfl⟩ := eq_positive_of_mul_infinity hfa hva hnumber
    show (UnpackedFloat.zero .positive).le (repack fmt (.infinity .positive)) = true
    rw [repack_infinity]
    rfl
  · have hle := zero_le_nearest fmt (mul_nonneg hva hvb)
    rwa [← unsigned_mul ha hb hfa hfb hva hvb, le_unsigned] at hle

/-- **Products with a number that is not below zero are monotone**, where they are numbers. -/
theorem repack_mul_le (hwide : 0 < maxExponent fmt) (ha : Canonical fmt a) (hb : Canonical fmt b)
    (hc : Canonical fmt c) (hpa : (UnpackedFloat.zero .positive).le a = true) (hab : a.le b = true)
    (hfb : b.isFinite = true) (hpc : (UnpackedFloat.zero .positive).le c = true)
    (hnumber : (repack fmt (mul fmt a c)).isNaN = false) :
    (repack fmt (mul fmt a c)).le (repack fmt (mul fmt b c)) = true := by
  have hfa := isFinite_of_le hpa hab hfb
  have hva := zero_le_value hpa hfa
  have hvab := (le_iff_value_le ha hb hfa hfb).mp hab
  rcases eq_infinity_or_zero_le_value hpc with rfl | ⟨hfc, hvc⟩
  -- a number above a positive one is positive, so both products are infinite
  · obtain ⟨m, e, hm, rfl⟩ := eq_positive_of_mul_infinity hfa hva hnumber
    rcases zero_or_positive hfb (hva.trans hvab) with ⟨t, rfl⟩ | ⟨n, f, hn, rfl⟩
    · cases hab
    · show (repack fmt (.infinity .positive)).le (repack fmt (.infinity .positive)) = true
      rw [repack_infinity]
      rfl
  · rw [← unsigned_le, ← le_unsigned, unsigned_mul ha hc hfa hfc hva hvc,
      unsigned_mul hb hc hfb hfc (hva.trans hvab) hvc]
    exact nearest_le_nearest hwide (mul_nonneg hva hvc) (mul_le_mul_of_nonneg_right hvab hvc)

end

end QpReferee.Ieee

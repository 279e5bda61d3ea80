import QpReferee.Proofs.Ieee.Rounding

/-!
# Words of a format

A word of a binary format is a number whose digits fill the significand or stop at the smallest exponent.
Putting a number into a word keeps it finite exactly if its exponent is in the format's range.

* `Canonical` : the shape of an unpacked word; `canonical_unpack` : every word has it.
* `isFinite_repack` : **a packed number is finite if and only if its exponent does not overflow.**
* `repack_of_canonical` : packing loses nothing of a number that has the shape of a word.
* `magnitude_le_largest` : no finite word is past the largest number.
* `magnitude_le_of_le` : words in the order of their fields are in the order of their values.
-/

namespace QpReferee.Ieee

open Float.Model (Format UnpackedFloat totalExponent)
open Float.Model.UnpackedFloat

variable (fmt : Format)

/-- The exponent of the last digit of the largest finite numbers. -/
def maxExponent : ℤ := fmt.exponentBias - fmt.mantissaBitsWithoutImplicit

def largest : ℚ := (2 ^ fmt.mantissaBits - 1) * 2 ^ maxExponent fmt

/-- The absolute value of a finite number. -/
def magnitude : UnpackedFloat → ℚ
  | .finite _ m e _ => m * 2 ^ e
  | _ => 0

theorem two_pow_exponentBits : 2 ^ fmt.exponentBits = 2 * fmt.exponentBias + 2 := by
  have hpos : 1 ≤ 2 ^ (fmt.exponentBits - 1) := Nat.one_le_two_pow
  have hbits : fmt.exponentBits = fmt.exponentBits - 1 + 1 := by
    have := fmt.he
    omega
  unfold Format.exponentBias
  conv_lhs => rw [hbits, pow_succ]
  omega

theorem minExponent_eq : fmt.minExponent = 1 - fmt.exponentBias - fmt.mantissaBitsWithoutImplicit := by
  unfold Format.minExponent Format.exponentBias Format.mantissaBits
  rw [Nat.cast_sub Nat.one_le_two_pow]
  push_cast
  ring

theorem two_pow_mantissaBits : 2 ^ fmt.mantissaBits = 2 * 2 ^ fmt.mantissaBitsWithoutImplicit := by
  rw [Format.mantissaBits, pow_add, pow_one]

/-! ## The shape of a word -/

/-- The digits fill the significand or stop at the smallest exponent, and the exponent is in range. -/
structure InRange (m : ℕ) (e : ℤ) : Prop where
  digits : m < 2 ^ fmt.mantissaBits
  low : fmt.minExponent ≤ e
  high : e ≤ maxExponent fmt
  full : 2 ^ fmt.mantissaBitsWithoutImplicit ≤ m ∨ e = fmt.minExponent

def Canonical : UnpackedFloat → Prop
  | .finite _ m e _ => InRange fmt m e
  | _ => True

variable {fmt}

theorem exponent_ne_ones {e : BitVec fmt.exponentBits} :
    e ≠ -1#(fmt.exponentBits) ↔ e.toNat < 2 * fmt.exponentBias + 1 := by
  have hlt := e.isLt
  rw [two_pow_exponentBits] at hlt
  rw [Ne, ← BitVec.toNat_inj, BitVec.neg_one_eq_allOnes, BitVec.toNat_allOnes, two_pow_exponentBits]
  omega

theorem toNat_implicit {k : ℕ} (fraction : BitVec k) :
    (1#1 ++ fraction).toNat = 2 ^ k + fraction.toNat := by
  rw [BitVec.toNat_append, ← Nat.shiftLeft_add_eq_or_of_lt fraction.isLt, BitVec.toNat_one one_pos,
    Nat.one_shiftLeft]

theorem canonical_unpack (hwide : 0 < maxExponent fmt) (b : BitVec fmt.numBits) :
    Canonical fmt (unpack fmt b) := by
  unfold maxExponent at hwide
  have hfraction := (@unpackMantissa fmt b).isLt
  have hpow := two_pow_mantissaBits fmt
  have hpos := Nat.two_pow_pos fmt.mantissaBitsWithoutImplicit
  unfold unpack
  dsimp only
  split_ifs with hlast hzero hsubnormal hnothing
  · trivial
  · trivial
  · trivial
  -- an exponent field of zero is read as one, without the implicit digit
  · have hexponent := exponent_ne_ones.mp hlast
    rw [hsubnormal, BitVec.toNat_zero] at hexponent ⊢
    refine ⟨?_, ?_, ?_, .inr ?_⟩
    · omega
    · rw [minExponent_eq]
      omega
    · unfold maxExponent
      omega
    · rw [minExponent_eq]
      omega
  · have hexponent := exponent_ne_ones.mp hlast
    have hne : (@unpackExponent fmt b).toNat ≠ 0 := fun h => hsubnormal (BitVec.eq_of_toNat_eq h)
    have hdigits := toNat_implicit (@unpackMantissa fmt b)
    refine ⟨?_, ?_, ?_, .inl ?_⟩
    · omega
    · rw [minExponent_eq]
      omega
    · unfold maxExponent
      omega
    · omega

/-! ## Packing -/

/-- A result as the next operation reads it. -/
def repack (fmt : Format) (u : UnpackedFloat) : UnpackedFloat := unpack fmt (pack fmt u)

theorem isFinite_unpack_iff (b : BitVec fmt.numBits) :
    (unpack fmt b).isFinite = true ↔ unpackExponent b ≠ -1#(fmt.exponentBits) := by
  unfold unpack
  dsimp only
  split_ifs with hlast hzero hsubnormal hnothing <;> simp [UnpackedFloat.isFinite, hlast]

/-- **A packed number is finite if and only if its exponent does not overflow.** -/
theorem isFinite_repack (u : UnpackedFloat) :
    (repack fmt u).isFinite = true ↔ Within (maxExponent fmt) u := by
  rw [repack, isFinite_unpack_iff]
  cases u with
  | notANumber =>
    unfold pack packedNaN
    rw [unpackExponent_packComponents]
    simp [Within]
  | infinity s =>
    unfold pack packedInfinity
    rw [unpackExponent_packComponents]
    simp [Within]
  | zero s =>
    unfold pack packedZero
    rw [unpackExponent_packComponents, exponent_ne_ones]
    simp [Within]
  | finite s m e hm =>
    have hcapacity := two_pow_exponentBits fmt
    unfold pack
    dsimp only
    -- beyond the last exponent, with all digits, with leading zeros
    split_ifs with hover hfull
    · unfold packedInfinity
      rw [unpackExponent_packComponents]
      simp only [ne_eq, not_true_eq_false, false_iff, Within, maxExponent]
      omega
    · rw [unpackExponent_packComponents, exponent_ne_ones, BitVec.toNat_ofNat,
        Nat.mod_eq_of_lt (by omega)]
      simp only [Within, maxExponent]
      omega
    · rw [unpackExponent_packComponents, exponent_ne_ones]
      simp only [BitVec.toNat_zero, Within, maxExponent]
      omega

theorem repack_infinity (s : Sign) : repack fmt (.infinity s) = .infinity s := by
  unfold repack pack packedInfinity UnpackedFloat.unpack
  simp

theorem unpack_packComponents (s : Sign) {e : BitVec fmt.exponentBits} (he : e ≠ -1#(fmt.exponentBits))
    (f : BitVec fmt.mantissaBitsWithoutImplicit) :
    unpack fmt (packComponents fmt s e f) =
      if e = 0#(fmt.exponentBits) then
        if h : f = 0#(fmt.mantissaBitsWithoutImplicit) then .zero s
        else .finite s f.toNat (1 - fmt.exponentBias - fmt.mantissaBitsWithoutImplicit)
          (Nat.pos_of_ne_zero fun hf => h (BitVec.eq_of_toNat_eq hf))
      else .finite s (2 ^ fmt.mantissaBitsWithoutImplicit + f.toNat)
        (e.toNat - fmt.exponentBias - fmt.mantissaBitsWithoutImplicit)
        (Nat.add_pos_left (Nat.two_pow_pos _) _) := by
  unfold UnpackedFloat.unpack
  simp only [unpackExponent_packComponents, unpackMantissa_packComponents, unpackSign_packComponents,
    Sign.ofBitVec_toBitVec, if_neg he, toNat_implicit]
  split_ifs with hsubnormal hzero
  · rfl
  · congr 1
    rw [hsubnormal, BitVec.toNat_zero]
    omega
  · congr 1
    omega

theorem exists_field {m : ℕ} {e : ℤ} (h : InRange fmt m e) : ∃ k : ℕ,
    e + fmt.exponentBias + fmt.mantissaBitsWithoutImplicit = k ∧ 0 < k ∧ k + 1 < 2 ^ fmt.exponentBits := by
  have hcapacity := two_pow_exponentBits fmt
  obtain ⟨-, hlow, hhigh, -⟩ := h
  rw [minExponent_eq] at hlow
  unfold maxExponent at hhigh
  exact ⟨(e + fmt.exponentBias + fmt.mantissaBitsWithoutImplicit).toNat, by omega, by omega, by omega⟩

theorem repack_normal (s : Sign) {m : ℕ} {e : ℤ} (hm : 0 < m) (h : InRange fmt m e)
    (hfull : 2 ^ fmt.mantissaBitsWithoutImplicit ≤ m) :
    repack fmt (.finite s m e hm) = .finite s m e hm := by
  obtain ⟨k, hk, hpos, hlt⟩ := exists_field h
  have hdigits := h.digits
  have hcapacity := two_pow_exponentBits fmt
  have hpow := two_pow_mantissaBits fmt
  have hlog : m.log2 + 1 = fmt.mantissaBits := by
    rw [Nat.log2_eq_log_two, Format.mantissaBits, Nat.add_comm, Nat.add_right_inj]
    refine (Nat.log_eq_iff (.inr ⟨one_lt_two, hm.ne'⟩)).mpr ⟨hfull, ?_⟩
    rwa [Nat.add_comm, ← Format.mantissaBits]
  have hexponent : (BitVec.ofNat fmt.exponentBits k).toNat = k := by
    rw [BitVec.toNat_ofNat, Nat.mod_eq_of_lt (by omega)]
  -- the fraction field drops the first digit, which unpacking puts back
  have hfraction : (BitVec.ofNat fmt.mantissaBitsWithoutImplicit m).toNat =
      m - 2 ^ fmt.mantissaBitsWithoutImplicit := by
    rw [BitVec.toNat_ofNat, Nat.mod_eq_sub_mod hfull, Nat.mod_eq_of_lt (by omega)]
  have hne : BitVec.ofNat fmt.exponentBits k ≠ 0#(fmt.exponentBits) := by
    intro hzero
    rw [hzero, BitVec.toNat_zero] at hexponent
    omega
  unfold repack pack
  dsimp only
  rw [hk, Int.toNat_natCast, if_neg (by omega), if_pos hlog,
    unpack_packComponents s (exponent_ne_ones.mpr (by omega)), if_neg hne]
  congr 1
  · omega
  · omega

theorem repack_subnormal (s : Sign) {m : ℕ} {e : ℤ} (hm : 0 < m) (h : InRange fmt m e)
    (hpartial : ¬2 ^ fmt.mantissaBitsWithoutImplicit ≤ m) :
    repack fmt (.finite s m e hm) = .finite s m e hm := by
  obtain ⟨k, hk, hpos, hlt⟩ := exists_field h
  have hexponent := h.full.resolve_left hpartial
  have hlog : m.log2 + 1 ≠ fmt.mantissaBits := by
    have hlt := (Nat.log2_lt hm.ne').mpr (Nat.lt_of_not_le hpartial)
    unfold Format.mantissaBits
    omega
  have hfraction : (BitVec.ofNat fmt.mantissaBitsWithoutImplicit m).toNat = m := by
    rw [BitVec.toNat_ofNat, Nat.mod_eq_of_lt (by omega)]
  have hne : BitVec.ofNat fmt.mantissaBitsWithoutImplicit m ≠ 0#(fmt.mantissaBitsWithoutImplicit) := by
    intro hzero
    rw [hzero, BitVec.toNat_zero] at hfraction
    omega
  unfold repack pack
  dsimp only
  rw [hk, Int.toNat_natCast, if_neg (by omega), if_neg hlog,
    unpack_packComponents s (exponent_ne_ones.mpr (by rw [BitVec.toNat_zero]; omega)), if_pos rfl,
    dif_neg hne]
  congr 1
  rw [hexponent, minExponent_eq]

/-- Packing loses nothing of a number that has the shape of a word. -/
theorem repack_of_canonical {u : UnpackedFloat} (hu : Canonical fmt u) : repack fmt u = u := by
  cases u with
  | notANumber => exact unpack_packedNaN
  | infinity s => exact repack_infinity s
  | zero s => exact unpack_packedZero
  | finite s m e hm =>
    by_cases hfull : 2 ^ fmt.mantissaBitsWithoutImplicit ≤ m
    · exact repack_normal s hm hu hfull
    · exact repack_subnormal s hm hu hfull

/-! ## Values -/

theorem magnitude_le_largest {u : UnpackedFloat} (hu : Canonical fmt u) : magnitude u ≤ largest fmt := by
  have hone : (1 : ℚ) ≤ 2 ^ fmt.mantissaBits := one_le_pow₀ one_le_two
  have hlargest : 0 ≤ largest fmt := mul_nonneg (by linarith) (by positivity)
  cases u with
  | notANumber => exact hlargest
  | infinity s => exact hlargest
  | zero s => exact hlargest
  | finite s m e hm =>
    have hdigits : (m : ℚ) ≤ 2 ^ fmt.mantissaBits - 1 := by
      have hle : ((m + 1 : ℕ) : ℚ) ≤ ((2 ^ fmt.mantissaBits : ℕ) : ℚ) := by exact_mod_cast hu.digits
      push_cast at hle
      linarith
    exact mul_le_mul hdigits (zpow_le_zpow_right₀ one_le_two hu.high) (by positivity) (by linarith)

theorem magnitude_lt_of_lt {m n : ℕ} {e f : ℤ} (hm : InRange fmt m e) (hn : InRange fmt n f)
    (h : e < f ∨ e = f ∧ m < n) : (m : ℚ) * 2 ^ e < n * 2 ^ f := by
  rcases h with hlt | ⟨rfl, hlt⟩
  -- above the smallest exponent the larger word has all its digits
  · have hfull : 2 ^ fmt.mantissaBitsWithoutImplicit ≤ n := by
      refine hn.full.resolve_right fun hf => ?_
      have := hm.low
      omega
    have hdigits : (m : ℚ) < 2 * n := by
      have hpow := two_pow_mantissaBits fmt
      have := hm.digits
      exact_mod_cast (by omega : m < 2 * n)
    calc (m : ℚ) * 2 ^ e < 2 * n * 2 ^ e := mul_lt_mul_of_pos_right hdigits (by positivity)
      _ = n * 2 ^ (e + 1) := by
        rw [zpow_add_one₀ two_ne_zero]
        ring
      _ ≤ n * 2 ^ f := mul_le_mul_of_nonneg_left (zpow_le_zpow_right₀ one_le_two hlt) (by positivity)
  · exact mul_lt_mul_of_pos_right (by exact_mod_cast hlt) (by positivity)

theorem magnitude_le_of_le {m n : ℕ} {e f : ℤ} (hm : InRange fmt m e) (hn : InRange fmt n f)
    (h : e < f ∨ e = f ∧ m ≤ n) : (m : ℚ) * 2 ^ e ≤ n * 2 ^ f := by
  by_cases heq : e = f ∧ m = n
  · rw [heq.1, heq.2]
  · exact (magnitude_lt_of_lt hm hn (by omega)).le

end QpReferee.Ieee

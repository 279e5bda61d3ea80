import Mathlib.Data.Nat.Log
import Mathlib.Tactic.Ring
import QpReferee.Decimal.Binary

/-!
# Rounding a fraction into a binary format

`BinaryFormat.nearest` is a function of the value of its fraction, and a fraction that is the value of a
finite magnitude rounds to that magnitude. Both are read off the spacing that the rounding chooses: it
depends on the fraction through a whole quotient only, and for the value of a magnitude it is the spacing
of that magnitude.

* `BinaryFormat.nearest_congr` : equal fractions round alike.
* `BinaryFormat.nearest_units` : **the exact value of a magnitude rounds to the magnitude.**
* `BinaryFormat.units_nearest_natCast` : whole numbers with few enough digits are not rounded.
* `BinaryFormat.nearest_lt_infinity` : fractions that are rounded without overflow.
-/

namespace QpReferee.BinaryFormat

/-! ## The nearest natural number -/

theorem roundHalfEven_mul (num den : ℕ) {k : ℕ} (hk : 0 < k) :
    roundHalfEven (num * k) (den * k) = roundHalfEven num den := by
  unfold roundHalfEven
  dsimp only
  have hbelow : 2 * (num % den * k) < den * k ↔ 2 * (num % den) < den := by
    rw [← Nat.mul_assoc, Nat.mul_lt_mul_right hk]
  have habove : den * k < 2 * (num % den * k) ↔ den < 2 * (num % den) := by
    rw [← Nat.mul_assoc, Nat.mul_lt_mul_right hk]
  rw [Nat.mul_div_mul_right _ _ hk, Nat.mul_mod_mul_right]
  simp only [hbelow, habove]

theorem roundHalfEven_exact (q : ℕ) {den : ℕ} (hden : 0 < den) : roundHalfEven (q * den) den = q := by
  unfold roundHalfEven
  rw [Nat.mul_mod_left, Nat.mul_div_cancel _ hden]
  exact if_pos (by omega)

variable (f : BinaryFormat)

/-! ## Equal fractions -/

theorem nearest_mul (num den : ℕ) {k : ℕ} (hk : 0 < k) :
    f.nearest (num * k) (den * k) = f.nearest num den := by
  unfold nearest
  dsimp only
  -- the spacing is chosen from a quotient, which the factor does not change
  have hscaled : num * k * Nat.pow 2 f.smallest = num * Nat.pow 2 f.smallest * k :=
    Nat.mul_right_comm _ _ _
  rw [hscaled, Nat.mul_div_mul_right _ _ hk]
  generalize (num * Nat.pow 2 f.smallest / den).log2 - f.fractionBits = level
  rw [Nat.mul_right_comm den, roundHalfEven_mul _ _ hk]

theorem nearest_congr {num den num' den' : ℕ} (hden : 0 < den) (hden' : 0 < den')
    (h : num * den' = num' * den) : f.nearest num den = f.nearest num' den' := by
  rw [← f.nearest_mul num den hden', ← f.nearest_mul num' den' hden, h, Nat.mul_comm den]

/-! ## The value of a magnitude -/

theorem level_add_significand (m : ℕ) :
    f.level m * 2 ^ f.fractionBits + f.significand m = m := by
  have hpos : 0 < 2 ^ f.fractionBits := Nat.two_pow_pos _
  have hdiv := Nat.div_add_mod m (2 ^ f.fractionBits)
  unfold level significand
  simp only [Nat.pow_eq]
  split_ifs with hzero
  · rw [hzero, Nat.zero_sub, Nat.zero_mul, Nat.zero_add]
  · obtain ⟨e, he⟩ := Nat.exists_eq_succ_of_ne_zero hzero
    rw [he, Nat.mul_succ] at hdiv
    rw [he, Nat.succ_sub_one, Nat.mul_comm e]
    omega

theorem significand_bounds (m : ℕ) : f.significand m < 2 ^ (f.fractionBits + 1) ∧
    (f.level m = 0 ∨ 2 ^ f.fractionBits ≤ f.significand m) := by
  have hpos : 0 < 2 ^ f.fractionBits := Nat.two_pow_pos _
  have hmod := Nat.mod_lt m hpos
  have hpow : 2 ^ (f.fractionBits + 1) = 2 * 2 ^ f.fractionBits := by rw [pow_succ, Nat.mul_comm]
  unfold level significand
  simp only [Nat.pow_eq]
  split_ifs with hzero
  · have hlt : m < 2 ^ f.fractionBits := (Nat.div_eq_zero_iff_lt hpos).mp hzero
    refine ⟨by omega, .inl ?_⟩
    rw [hzero]
  · exact ⟨by omega, .inr (by omega)⟩

theorem log2_units (m : ℕ) : (f.units m).log2 - f.fractionBits = f.level m := by
  obtain ⟨hlt, hfull⟩ := f.significand_bounds m
  unfold units
  rw [Nat.pow_eq]
  rcases hfull with hlevel | hfull
  · rw [hlevel, pow_zero, Nat.mul_one, Nat.log2_eq_log_two]
    have hlog := Nat.log_lt_of_lt_pow' (b := 2) (by omega) hlt
    omega
  · have hpos : 0 < 2 ^ f.level m := Nat.two_pow_pos _
    have hne : f.significand m * 2 ^ f.level m ≠ 0 := by
      have := Nat.two_pow_pos f.fractionBits
      exact Nat.mul_ne_zero (by omega) hpos.ne'
    have hlog : Nat.log 2 (f.significand m * 2 ^ f.level m) = f.fractionBits + f.level m := by
      refine (Nat.log_eq_iff (.inr ⟨by decide, hne⟩)).mpr ⟨?_, ?_⟩
      · rw [pow_add]
        exact Nat.mul_le_mul_right _ hfull
      · rw [Nat.add_right_comm, pow_add]
        exact Nat.mul_lt_mul_of_pos_right hlt hpos
    rw [Nat.log2_eq_log_two, hlog, Nat.add_sub_cancel_left]

/-- **The exact value of a magnitude rounds to the magnitude.** -/
theorem nearest_units {m : ℕ} (hm : m < f.infinity) :
    f.nearest (f.units m) (Nat.pow 2 f.smallest) = m := by
  have hspacing : 0 < Nat.pow 2 f.smallest * Nat.pow 2 (f.level m) :=
    Nat.mul_pos (Nat.two_pow_pos _) (Nat.two_pow_pos _)
  have hquotient : f.units m * Nat.pow 2 f.smallest / Nat.pow 2 f.smallest = f.units m :=
    Nat.mul_div_cancel _ (Nat.two_pow_pos _)
  unfold nearest
  dsimp only
  rw [hquotient, f.log2_units, units, Nat.mul_assoc,
    Nat.mul_comm (Nat.pow 2 (f.level m)), roundHalfEven_exact _ hspacing]
  simp only [Nat.pow_eq]
  rw [f.level_add_significand, Nat.min_eq_right (Nat.le_of_lt hm)]

/-! ## Whole numbers -/

theorem units_of_significand {q level : ℕ} (hfull : 2 ^ f.fractionBits ≤ q)
    (hlt : q < 2 ^ (f.fractionBits + 1)) : f.units (level * 2 ^ f.fractionBits + q) = q * 2 ^ level := by
  have hpow : 2 ^ (f.fractionBits + 1) = 2 * 2 ^ f.fractionBits := by rw [pow_succ, Nat.mul_comm]
  have hfraction : level * 2 ^ f.fractionBits + q =
      (q - 2 ^ f.fractionBits) + 2 ^ f.fractionBits * (level + 1) := by
    rw [Nat.mul_succ, Nat.mul_comm]
    omega
  have hrest : q - 2 ^ f.fractionBits < 2 ^ f.fractionBits := by omega
  have hdiv : (level * 2 ^ f.fractionBits + q) / 2 ^ f.fractionBits = level + 1 := by
    rw [hfraction, Nat.add_mul_div_left _ _ (Nat.two_pow_pos _), Nat.div_eq_of_lt hrest, Nat.zero_add]
  have hmod : (level * 2 ^ f.fractionBits + q) % 2 ^ f.fractionBits = q - 2 ^ f.fractionBits := by
    rw [hfraction, Nat.add_mul_mod_self_left, Nat.mod_eq_of_lt hrest]
  unfold units significand BinaryFormat.level
  simp only [Nat.pow_eq]
  rw [hdiv, hmod, if_neg (Nat.succ_ne_zero level), Nat.sub_add_cancel hfull, Nat.add_sub_cancel]

/-- A whole number with few enough digits is the value of a magnitude. -/
theorem exists_units {n : ℕ} (hn : n < 2 ^ (f.fractionBits + 1)) (hlow : f.fractionBits ≤ f.smallest)
    (hhigh : f.smallest + 2 < 2 ^ f.exponentBits) : ∃ m < f.infinity, f.units m = n * 2 ^ f.smallest := by
  have hpos : 0 < 2 ^ f.fractionBits := Nat.two_pow_pos _
  rcases Nat.eq_zero_or_pos n with rfl | hn0
  · refine ⟨0, Nat.mul_pos ?_ hpos, ?_⟩
    · show 0 < 2 ^ f.exponentBits - 1
      omega
    · simp [units, significand]
  -- shifted until it fills the significand
  · have hlog : Nat.log 2 n ≤ f.fractionBits := Nat.lt_succ_iff.mp (Nat.log_lt_of_lt_pow hn0.ne' hn)
    obtain ⟨shift, hshift⟩ := Nat.exists_eq_add_of_le hlog
    obtain ⟨level, hlevel⟩ := Nat.exists_eq_add_of_le (show shift ≤ f.smallest by omega)
    have hfull : 2 ^ f.fractionBits ≤ n * 2 ^ shift := by
      rw [hshift, pow_add]
      exact Nat.mul_le_mul_right _ (Nat.pow_log_le_self 2 hn0.ne')
    have hlt : n * 2 ^ shift < 2 ^ (f.fractionBits + 1) := by
      rw [hshift, Nat.add_right_comm, pow_add]
      exact Nat.mul_lt_mul_of_pos_right (Nat.lt_pow_succ_log_self one_lt_two n) (Nat.two_pow_pos _)
    refine ⟨level * 2 ^ f.fractionBits + n * 2 ^ shift, ?_, ?_⟩
    · have hpow : 2 ^ (f.fractionBits + 1) = 2 * 2 ^ f.fractionBits := by rw [pow_succ, Nat.mul_comm]
      calc level * 2 ^ f.fractionBits + n * 2 ^ shift < (level + 2) * 2 ^ f.fractionBits := by
            rw [Nat.add_mul]
            omega
        _ ≤ (2 ^ f.exponentBits - 1) * 2 ^ f.fractionBits := Nat.mul_le_mul_right _ (by omega)
    · rw [f.units_of_significand hfull hlt, Nat.mul_assoc, ← pow_add, ← hlevel]

theorem units_nearest_natCast {n : ℕ} (hn : n < 2 ^ (f.fractionBits + 1))
    (hlow : f.fractionBits ≤ f.smallest) (hhigh : f.smallest + 2 < 2 ^ f.exponentBits) :
    f.nearest n 1 < f.infinity ∧ f.units (f.nearest n 1) = n * 2 ^ f.smallest := by
  obtain ⟨m, hm, hunits⟩ := f.exists_units hn hlow hhigh
  have hnearest : f.nearest n 1 = m := by
    have h := f.nearest_units hm
    rwa [hunits, Nat.pow_eq, ← Nat.one_mul (2 ^ f.smallest), ← Nat.mul_assoc, Nat.mul_one,
      f.nearest_mul n 1 (Nat.two_pow_pos _)] at h
  rw [hnearest]
  exact ⟨hm, hunits⟩

/-! ## Numbers that do not overflow -/

theorem roundHalfEven_le (num den : ℕ) : roundHalfEven num den ≤ num / den + 1 := by
  unfold roundHalfEven
  dsimp only
  split_ifs <;> omega

/-- **A number far below the last power of two does not overflow.** -/
theorem nearest_lt_infinity {num den k : ℕ} (hden : 0 < den) (h : num < den * 2 ^ k)
    (hk : k + 1 < 2 ^ (f.exponentBits - 1)) : f.nearest num den < f.infinity := by
  obtain ⟨s, hs⟩ : ∃ s, s = num * 2 ^ f.smallest / den := ⟨_, rfl⟩
  obtain ⟨level, hlevel⟩ : ∃ level, level = s.log2 - f.fractionBits := ⟨_, rfl⟩
  have hexponents : 2 ^ f.exponentBits = 2 * 2 ^ (f.exponentBits - 1) := by
    rw [← pow_succ', Nat.sub_add_cancel]
    exact Nat.pos_of_ne_zero fun hzero => by simp [hzero] at hk
  have hlog : s.log2 ≤ k + f.smallest := by
    rcases Nat.eq_zero_or_pos s with hzero | hpos
    · rw [hzero]
      exact Nat.zero_le _
    · refine ((Nat.log2_lt hpos.ne').mpr ?_).le
      rw [hs, Nat.div_lt_iff_lt_mul hden, pow_add, mul_right_comm, mul_comm _ den]
      exact Nat.mul_lt_mul_of_pos_right h (Nat.two_pow_pos _)
  have hspacing : level + 2 < 2 ^ f.exponentBits - 1 := by
    have hsmallest : f.smallest = 2 ^ (f.exponentBits - 1) - 2 + f.fractionBits := rfl
    omega
  have hquotient : num * 2 ^ f.smallest / (den * 2 ^ level) < 2 * 2 ^ f.fractionBits := by
    rw [← Nat.div_div_eq_div_mul, ← hs, Nat.div_lt_iff_lt_mul (Nat.two_pow_pos _), ← pow_succ', ← pow_add]
    exact Nat.lt_log2_self.trans_le (Nat.pow_le_pow_right Nat.two_pos (by omega))
  have hrounded := roundHalfEven_le (num * 2 ^ f.smallest) (den * 2 ^ level)
  have hscaled : (level + 2) * 2 ^ f.fractionBits < f.infinity :=
    Nat.mul_lt_mul_of_pos_right hspacing (Nat.two_pow_pos _)
  have hbelow : level * 2 ^ f.fractionBits +
      roundHalfEven (num * 2 ^ f.smallest) (den * 2 ^ level) < f.infinity := by
    rw [Nat.add_mul] at hscaled
    omega
  have hnearest : f.nearest num den = min f.infinity (level * 2 ^ f.fractionBits +
      roundHalfEven (num * 2 ^ f.smallest) (den * 2 ^ level)) := by
    rw [hlevel, hs]
    rfl
  rw [hnearest]
  exact (Nat.min_le_right _ _).trans_lt hbelow

end QpReferee.BinaryFormat

import QpReferee.Proofs.Ieee.Packing

/-!
# Operations and overflow

Each operation on finite numbers is the exact result, rounded once, so it stays finite while the exact
result is below the middle between the largest finite number and the next. On the other values an
operation follows fixed rules: a result is finite only if no infinity and no value that is no number went
into it, but for a division by an infinity.

* `mul_eq`, `div_eq`, `add_eq`, `sub_eq` : **an operation is its exact result, rounded once.**
* `isFinite_of_add`, `isFinite_of_sub`, `isFinite_of_mul` : finite results have finite operands.
* `le_total`, `isFinite_of_le`, `one_le` : the order of a check.
* `div_within`, `mul_within`, `add_within`, `tolerance_within` : results that cannot overflow.
-/

namespace QpReferee.Ieee

open Float.Model (Format UnpackedFloat totalExponent)
open Float.Model.UnpackedFloat

variable {fmt : Format}

/-! ## Exact results -/

theorem mul_low {m n : ℕ} {e f : ℤ} (hm : 0 < m) (hn : 0 < n) (hrm : InRange fmt m e)
    (hrn : InRange fmt n f) : e + f ≤ place fmt (((m * n : ℕ) : ℚ) * 2 ^ (e + f)) := by
  have hwide : 2 ^ fmt.mantissaBitsWithoutImplicit ≤ m * n →
      e + f ≤ place fmt (((m * n : ℕ) : ℚ) * 2 ^ (e + f)) := by
    intro hfull
    have hlog : fmt.mantissaBitsWithoutImplicit ≤ Nat.log 2 (m * n) :=
      Nat.le_log_of_pow_le one_lt_two hfull
    have hpos : (0 : ℚ) < (m * n : ℕ) := by exact_mod_cast Nat.mul_pos hm hn
    unfold place Format.targetExponent Format.mantissaBits
    rw [log_mul_zpow hpos, Int.log_natCast]
    omega
  rcases hrm.full with hfull | he
  · exact hwide (hfull.trans (Nat.le_mul_of_pos_right m hn))
  · rcases hrn.full with hfull | hf
    · exact hwide (hfull.trans (Nat.le_mul_of_pos_left n hm))
    -- the product of two of the smallest numbers is far below every number of the format
    · refine le_trans ?_ (minExponent_le_place fmt _)
      have hbias := Nat.one_le_two_pow (n := fmt.exponentBits - 1)
      have hmin := minExponent_eq fmt
      have := fmt.hm
      omega

/-- **A product is the exact one, rounded once.** -/
theorem mul_eq (s t : Sign) {m n : ℕ} {e f : ℤ} (hm : 0 < m) (hn : 0 < n) (hrm : InRange fmt m e)
    (hrn : InRange fmt n f) :
    mul fmt (.finite s m e hm) (.finite t n f hn) = rounded fmt (s * t) (m * 2 ^ e * (n * 2 ^ f)) := by
  have hvalue : ((m * n : ℕ) : ℚ) * 2 ^ (e + f) = m * 2 ^ e * (n * 2 ^ f) := by
    rw [zpow_add₀ two_ne_zero]
    push_cast
    ring
  have hpos : (0 : ℚ) < (m * n : ℕ) := by exact_mod_cast Nat.mul_pos hm hn
  change roundWithAccuracy fmt (s * t) (m * n) (e + f) .exact = _
  rw [roundWithAccuracy_eq (s * t) hpos (mul_low hm hn hrm hrn) (extend_exact _), hvalue]

theorem log_div_ge {v w : ℚ} (hv : 0 < v) (hw : 0 < w) :
    Int.log 2 v - Int.log 2 w ≤ Int.log 2 (v / w) + 1 := by
  have hlow : (2 : ℚ) ^ Int.log 2 v ≤ v := by exact_mod_cast Int.zpow_log_le_self one_lt_two hv
  have hhigh : w < (2 : ℚ) ^ (Int.log 2 w + 1) := by exact_mod_cast Int.lt_zpow_succ_log_self one_lt_two w
  rw [← sub_le_iff_le_add, ← Int.zpow_le_iff_le_log one_lt_two (div_pos hv hw), Nat.cast_ofNat, sub_sub,
    zpow_sub₀ two_ne_zero]
  exact div_le_div₀ hv.le hlow hw hhigh.le

theorem div_low {m n : ℕ} (e f : ℤ) (hm : 0 < m) (hn : 0 < n) :
    fmt.targetExponent (totalExponent m e - totalExponent n f) ≤
      place fmt (m * 2 ^ e / (n * 2 ^ f)) := by
  have hmpos : (0 : ℚ) < m := by exact_mod_cast hm
  have hnpos : (0 : ℚ) < n := by exact_mod_cast hn
  have hlog := log_div_ge (v := m * 2 ^ e) (w := n * 2 ^ f) (by positivity) (by positivity)
  rw [log_mul_zpow hmpos, log_mul_zpow hnpos, Int.log_natCast, Int.log_natCast] at hlog
  unfold place Format.targetExponent totalExponent
  rw [Nat.log2_eq_log_two, Nat.log2_eq_log_two]
  omega

/-- **A quotient is the exact one, rounded once.** -/
theorem div_eq (s t : Sign) {m n : ℕ} (e f : ℤ) (hm : 0 < m) (hn : 0 < n) :
    div fmt (.finite s m e hm) (.finite t n f hn) = rounded fmt (s / t) (m * 2 ^ e / (n * 2 ^ f)) := by
  have hnpos : (0 : ℚ) < n := by exact_mod_cast hn
  change roundWithAccuracy fmt (s / t) (divCore fmt m e n f).1 (divCore fmt m e n f).2.1
    (divCore fmt m e n f).2.2 = _
  unfold divCore
  dsimp only
  -- the dividend is shifted until the quotient ends at `low`
  generalize hmin : min (e - f) (fmt.targetExponent (totalExponent m e - totalExponent n f)) = low
  have hlow : low ≤ place fmt (m * 2 ^ e / (n * 2 ^ f)) :=
    hmin ▸ (min_le_right _ _).trans (div_low e f hm hn)
  obtain ⟨k, hk⟩ := Int.eq_ofNat_of_zero_le (sub_nonneg.mpr (hmin ▸ min_le_left _ _ : low ≤ e - f))
  have hvalue : ((m <<< k : ℕ) : ℚ) / n * 2 ^ low = m * 2 ^ e / (n * 2 ^ f) := by
    have he : e = low + f + k := by omega
    rw [Nat.shiftLeft_eq, he, zpow_add₀ two_ne_zero, zpow_add₀ two_ne_zero, zpow_natCast]
    push_cast
    field_simp
  have hquotient : (0 : ℚ) < (m <<< k : ℕ) / n := by
    rw [Nat.shiftLeft_eq]
    push_cast
    positivity
  rw [hk, Int.toNat_natCast, roundWithAccuracy_eq (s / t) hquotient (by rw [hvalue]; exact hlow)
    (extend_div _ hn), hvalue]

def withSign : Sign → ℚ → ℚ
  | .positive, v => v
  | .negative, v => -v

/-- A sum, rounded: a sum that vanishes is the positive zero. -/
def roundedSum (fmt : Format) (v : ℚ) : UnpackedFloat :=
  if v = 0 then .zero .positive
  else if 0 < v then rounded fmt .positive v
  else rounded fmt .negative (-v)

theorem normalize_eq (k e : ℤ) :
    UnpackedFloat.normalize fmt k e .positive = roundedSum fmt (k * 2 ^ e) := by
  have hpow : (0 : ℚ) < 2 ^ e := by positivity
  unfold UnpackedFloat.normalize roundedSum
  -- the sign of the sum is the one of its digits
  rcases lt_trichotomy k 0 with hneg | rfl | hpos
  · have hcast : (k : ℚ) < 0 := by exact_mod_cast hneg
    have hsum : (k : ℚ) * 2 ^ e < 0 := mul_neg_of_neg_of_pos hcast hpow
    have habs : (((-k).toNat : ℕ) : ℚ) = -k := by
      exact_mod_cast Int.toNat_of_nonneg (by omega : 0 ≤ -k)
    rw [Int.compare_eq_lt.mpr hneg, if_neg hsum.ne, if_neg hsum.not_gt]
    dsimp only
    rw [round_eq _ (by omega), habs, neg_mul]
  · simp
  · have hcast : (0 : ℚ) < k := by exact_mod_cast hpos
    have hsum : 0 < (k : ℚ) * 2 ^ e := mul_pos hcast hpow
    have habs : ((k.toNat : ℕ) : ℚ) = k := by exact_mod_cast Int.toNat_of_nonneg hpos.le
    rw [Int.compare_eq_gt.mpr hpos, if_neg hsum.ne', if_pos hsum]
    dsimp only
    rw [round_eq _ (by omega), habs]

theorem apply_shiftLeft (s : Sign) (m : ℕ) {e low : ℤ} (h : low ≤ e) :
    ((s.apply ((m <<< (e - low).toNat : ℕ) : ℤ) : ℤ) : ℚ) * 2 ^ low = withSign s (m * 2 ^ e) := by
  obtain ⟨k, hk⟩ := Int.eq_ofNat_of_zero_le (sub_nonneg.mpr h)
  have he : e = low + k := by omega
  rw [hk, Int.toNat_natCast, Nat.shiftLeft_eq, he, zpow_add₀ two_ne_zero, zpow_natCast]
  cases s <;>
  · simp only [Sign.apply, withSign]
    push_cast
    ring

/-- **A sum is the exact one, rounded once.** -/
theorem add_eq (s t : Sign) {m n : ℕ} (e f : ℤ) (hm : 0 < m) (hn : 0 < n) :
    add fmt (.finite s m e hm) (.finite t n f hn) =
      roundedSum fmt (withSign s (m * 2 ^ e) + withSign t (n * 2 ^ f)) := by
  rw [← apply_shiftLeft s m (min_le_left e f), ← apply_shiftLeft t n (min_le_right e f), ← add_mul,
    ← Int.cast_add, ← normalize_eq]
  rfl

theorem sub_eq (u v : UnpackedFloat) : sub fmt u v = add fmt u v.neg := by
  cases u with
  | notANumber => rfl
  | infinity s => cases v <;> rfl
  | zero s => cases v <;> rfl
  | finite s m e hm =>
    cases v with
    | finite t n f hn =>
      have hneg (k : ℤ) : (-t).apply k = -t.apply k := by
        cases t
        · exact (neg_neg k).symm
        · rfl
      simp only [sub, add, UnpackedFloat.neg, hneg, sub_eq_add_neg]
    | _ => rfl

theorem roundedSum_within {v : ℚ} {top : ℤ} (htop : fmt.minExponent ≤ top)
    (h : |v| < (2 ^ fmt.mantissaBits - 1 / 2) * 2 ^ top) : Within top (roundedSum fmt v) := by
  unfold roundedSum
  split_ifs with hzero hpos
  · trivial
  · rw [abs_of_pos hpos] at h
    exact rounded_within _ hpos htop h
  · have hneg : v < 0 := lt_of_le_of_ne (not_lt.mp hpos) hzero
    rw [abs_of_neg hneg] at h
    exact rounded_within _ (neg_pos.mpr hneg) htop h

/-! ## Finite results have finite operands -/

section

variable {top : ℤ} {u v : UnpackedFloat}

theorem isFinite_of_add (h : Within top (add fmt u v)) : u.isFinite = true ∧ v.isFinite = true := by
  cases u <;> cases v <;> first
    | exact ⟨rfl, rfl⟩
    | exact h.elim
    | skip
  -- two infinities: one of them, or no number
  simp only [add] at h
  split_ifs at h <;> exact h.elim

theorem isFinite_neg (u : UnpackedFloat) : u.neg.isFinite = u.isFinite := by
  cases u <;> rfl

theorem isFinite_of_sub (h : Within top (sub fmt u v)) : u.isFinite = true ∧ v.isFinite = true := by
  rw [sub_eq] at h
  rw [← isFinite_neg v]
  exact isFinite_of_add h

theorem isFinite_of_mul (h : Within top (mul fmt u v)) : u.isFinite = true ∧ v.isFinite = true := by
  cases u <;> cases v <;> first
    | exact ⟨rfl, rfl⟩
    | exact h.elim

theorem isNaN_of_isFinite (h : u.isFinite = true) : u.isNaN = false := by
  cases u <;> first
    | rfl
    | cases h

theorem canonical_abs (h : Canonical fmt u) : Canonical fmt u.abs := by
  cases u <;> exact h

theorem isFinite_abs (u : UnpackedFloat) : u.abs.isFinite = u.isFinite := by
  cases u <;> rfl

theorem isNaN_abs (u : UnpackedFloat) : u.abs.isNaN = u.isNaN := by
  cases u <;> rfl

end

/-! ## The order -/

section

variable {u v w : UnpackedFloat}

theorem isNaN_of_le (h : u.le v = true) : u.isNaN = false ∧ v.isNaN = false := by
  cases u <;> cases v <;> first
    | exact ⟨rfl, rfl⟩
    | cases h

theorem compare_swap (u v : UnpackedFloat) : v.compare u = (u.compare v).map Ordering.swap := by
  cases u with
  | notANumber => cases v <;> rfl
  | infinity s =>
    cases v with
    | infinity t => cases s <;> cases t <;> rfl
    | _ => cases s <;> rfl
  | zero s =>
    cases v with
    | infinity t => cases t <;> rfl
    | finite t n f hn => cases t <;> rfl
    | _ => rfl
  | finite s m e hm =>
    cases v with
    | notANumber => cases s <;> rfl
    | infinity t => cases s <;> cases t <;> rfl
    | zero t => cases s <;> rfl
    | finite t n f hn =>
      have hfields : (compare f e).then (compare n m) = ((compare e f).then (compare m n)).swap := by
        rw [Ordering.swap_then, Int.compare_swap, Nat.compare_swap]
      cases s <;> cases t <;> first
        | rfl
        | exact congrArg some hfields
        | exact congrArg some (congrArg Ordering.swap hfields)

theorem exists_compare (hu : u.isNaN = false) (hv : v.isNaN = false) : ∃ order, u.compare v = some order := by
  cases u with
  | notANumber => cases hu
  | infinity s =>
    cases v with
    | notANumber => cases hv
    | infinity t => exact ⟨_, rfl⟩
    | _ => cases s <;> exact ⟨_, rfl⟩
  | zero s =>
    cases v with
    | notANumber => cases hv
    | infinity t => cases t <;> exact ⟨_, rfl⟩
    | finite t n f hn => cases t <;> exact ⟨_, rfl⟩
    | zero t => exact ⟨_, rfl⟩
  | finite s m e hm =>
    cases v with
    | notANumber => cases hv
    | infinity t => cases s <;> cases t <;> exact ⟨_, rfl⟩
    | zero t => cases s <;> exact ⟨_, rfl⟩
    | finite t n f hn => cases s <;> cases t <;> exact ⟨_, rfl⟩

theorem le_total (hu : u.isNaN = false) (hv : v.isNaN = false) : u.le v = true ∨ v.le u = true := by
  obtain ⟨order, horder⟩ := exists_compare hu hv
  unfold UnpackedFloat.le
  rw [compare_swap u v, horder]
  cases order <;> simp

theorem le_of_not_lt (hu : u.isNaN = false) (hv : v.isNaN = false) (h : ¬u.lt v = true) :
    v.le u = true := by
  obtain ⟨order, horder⟩ := exists_compare hu hv
  unfold UnpackedFloat.lt at h
  unfold UnpackedFloat.le
  rw [compare_swap u v]
  rw [horder] at h ⊢
  cases order with
  | lt => exact absurd rfl h
  | eq => rfl
  | gt => rfl

theorem not_le_of_lt (h : u.lt v = true) : ¬v.le u = true := by
  unfold UnpackedFloat.lt at h
  unfold UnpackedFloat.le
  rw [compare_swap u v]
  cases horder : u.compare v with
  | none => simp
  | some order =>
    rw [horder] at h
    cases order with
    | lt => decide
    | eq => cases h
    | gt => cases h

theorem zero_le_abs (hu : u.isNaN = false) : (UnpackedFloat.zero .positive).le u.abs = true := by
  cases u <;> first
    | rfl
    | cases hu

theorem eq_infinity_of_zero_le (hpos : (UnpackedFloat.zero .positive).le u = true)
    (hu : u.isFinite = false) : u = .infinity .positive := by
  cases u with
  | notANumber => cases hpos
  | infinity s =>
    cases s with
    | positive => rfl
    | negative => cases hpos
  | zero s => cases hu
  | finite s m e hm => cases hu

theorem not_infinity_le (hv : v.isFinite = true) : (UnpackedFloat.infinity .positive).le v = false := by
  cases v <;> first
    | rfl
    | cases hv

theorem isFinite_of_le (hpos : (UnpackedFloat.zero .positive).le u = true) (hle : u.le v = true)
    (hv : v.isFinite = true) : u.isFinite = true := by
  by_contra hu
  rw [eq_infinity_of_zero_le hpos (Bool.not_eq_true _ ▸ hu), not_infinity_le hv] at hle
  cases hle

def one (fmt : Format) : UnpackedFloat :=
  .finite .positive (2 ^ fmt.mantissaBitsWithoutImplicit) (-fmt.mantissaBitsWithoutImplicit)
    (implicit_pos fmt)

theorem inRange_one (hwide : 0 < maxExponent fmt) :
    InRange fmt (2 ^ fmt.mantissaBitsWithoutImplicit) (-fmt.mantissaBitsWithoutImplicit) := by
  have hpow := two_pow_mantissaBits fmt
  have hpos := Nat.two_pow_pos fmt.mantissaBitsWithoutImplicit
  have hmin := minExponent_eq fmt
  unfold maxExponent at hwide
  refine ⟨by omega, by omega, ?_, .inl le_rfl⟩
  unfold maxExponent
  omega

theorem one_le (hwide : 0 < maxExponent fmt) (hv : Canonical fmt v) (h : (one fmt).le v = true) :
    v = .infinity .positive ∨ ∃ m e hm, v = .finite .positive m e hm ∧ (1 : ℚ) ≤ m * 2 ^ e := by
  cases v with
  | notANumber => cases h
  | infinity s =>
    cases s with
    | positive => exact .inl rfl
    | negative => cases h
  | zero s => cases h
  | finite s m e hm =>
    cases s with
    | negative => cases h
    | positive =>
      refine .inr ⟨m, e, hm, rfl, ?_⟩
      -- the order compares the exponents first, then the digits
      have hfields : -(fmt.mantissaBitsWithoutImplicit : ℤ) < e ∨
          -(fmt.mantissaBitsWithoutImplicit : ℤ) = e ∧ 2 ^ fmt.mantissaBitsWithoutImplicit ≤ m := by
        change ((compare (-(fmt.mantissaBitsWithoutImplicit : ℤ)) e).then
          (compare (2 ^ fmt.mantissaBitsWithoutImplicit) m)).isLE = true at h
        rcases lt_trichotomy (-(fmt.mantissaBitsWithoutImplicit : ℤ)) e with hlt | heq | hgt
        · exact .inl hlt
        · rw [Int.compare_eq_eq.mpr heq, Ordering.eq_then, Nat.isLE_compare] at h
          exact .inr ⟨heq, h⟩
        · rw [Int.compare_eq_gt.mpr hgt] at h
          cases h
      have hle := magnitude_le_of_le (inRange_one hwide) hv hfields
      rw [zpow_neg, zpow_natCast] at hle
      push_cast at hle
      rwa [mul_inv_cancel₀ (by positivity)] at hle

end

/-! ## Results that cannot overflow -/

section

variable {u v w : UnpackedFloat}

theorem largest_lt (hwide : 0 < maxExponent fmt) :
    largest fmt + 1 / 2 < (2 ^ fmt.mantissaBits - 1 / 2) * 2 ^ maxExponent fmt := by
  have hone : (1 : ℚ) < 2 ^ maxExponent fmt := one_lt_zpow₀ one_lt_two hwide
  unfold largest
  linarith

theorem minExponent_le_maxExponent (hwide : 0 < maxExponent fmt) : fmt.minExponent ≤ maxExponent fmt := by
  have hmin := minExponent_eq fmt
  unfold maxExponent at hwide ⊢
  omega

theorem rounded_within_of_le (hwide : 0 < maxExponent fmt) (s : Sign) {x : ℚ} (hx : 0 < x)
    (h : x ≤ largest fmt) : Within (maxExponent fmt) (rounded fmt s x) := by
  have := largest_lt hwide
  exact rounded_within s hx (minExponent_le_maxExponent hwide) (by linarith)

theorem div_within (hwide : 0 < maxExponent fmt) (hu : Canonical fmt u) (hfinite : u.isFinite = true)
    (hv : Canonical fmt v) (hone : (one fmt).le v = true) : Within (maxExponent fmt) (div fmt u v) := by
  rcases one_le hwide hv hone with rfl | ⟨n, f, hn, rfl, hge⟩
  · cases u <;> trivial
  · cases u with
    | notANumber => cases hfinite
    | infinity s => cases hfinite
    | zero s => trivial
    | finite s m e hm =>
      have hpos : (0 : ℚ) < m * 2 ^ e := by positivity
      have hlargest : (m : ℚ) * 2 ^ e ≤ largest fmt := magnitude_le_largest hu
      rw [div_eq]
      refine rounded_within_of_le hwide _ (by positivity) (le_trans ?_ hlargest)
      exact div_le_self hpos.le hge

theorem isFinite_of_div_le (hwide : 0 < maxExponent fmt) (hv : Canonical fmt v)
    (hone : (one fmt).le v = true) (hle : (repack fmt (div fmt u.abs v)).le w = true)
    (hw : w.isFinite = true) : u.isFinite = true := by
  have hnan : repack fmt .notANumber = .notANumber := unpack_packedNaN
  cases u with
  | notANumber =>
    change (repack fmt .notANumber).le w = true at hle
    rw [hnan] at hle
    cases (isNaN_of_le hle).1
  | infinity s =>
    rcases one_le hwide hv hone with rfl | ⟨n, f, hn, rfl, -⟩
    · change (repack fmt .notANumber).le w = true at hle
      rw [hnan] at hle
      cases (isNaN_of_le hle).1
    · change (repack fmt (.infinity .positive)).le w = true at hle
      rw [repack_infinity, not_infinity_le hw] at hle
      cases hle
  | zero s => rfl
  | finite s m e hm => rfl

theorem mul_within (hwide : 0 < maxExponent fmt) (s : Sign) {m : ℕ} {e : ℤ} (hm : 0 < m)
    (hrange : InRange fmt m e) (hone : (m : ℚ) * 2 ^ e ≤ 1) (hu : Canonical fmt u)
    (hfinite : u.isFinite = true) : Within (maxExponent fmt) (mul fmt (.finite s m e hm) u) := by
  cases u with
  | notANumber => cases hfinite
  | infinity t => cases hfinite
  | zero t => trivial
  | finite t n f hn =>
    have hlargest : (n : ℚ) * 2 ^ f ≤ largest fmt := magnitude_le_largest hu
    have hpos : (0 : ℚ) < n * 2 ^ f := by positivity
    rw [mul_eq s t hm hn hrange hu]
    refine rounded_within_of_le hwide _ (by positivity) (le_trans ?_ hlargest)
    exact mul_le_of_le_one_left hpos.le hone

/-- Adding a number up to one half does not overflow: the largest number is further from the next. -/
theorem add_within (hwide : 0 < maxExponent fmt) (s : Sign) {m : ℕ} {e : ℤ} (hm : 0 < m)
    (hrange : InRange fmt m e) (hhalf : (m : ℚ) * 2 ^ e ≤ 1 / 2) (hu : Canonical fmt u)
    (hfinite : u.isFinite = true) : Within (maxExponent fmt) (add fmt (.finite s m e hm) u) := by
  cases u with
  | notANumber => cases hfinite
  | infinity t => cases hfinite
  | zero t => exact hrange.high
  | finite t n f hn =>
    have hlargest : (n : ℚ) * 2 ^ f ≤ largest fmt := magnitude_le_largest hu
    have hsum : |withSign s ((m : ℚ) * 2 ^ e) + withSign t (n * 2 ^ f)| ≤ largest fmt + 1 / 2 := by
      have hmpos : (0 : ℚ) ≤ m * 2 ^ e := by positivity
      have hnpos : (0 : ℚ) ≤ n * 2 ^ f := by positivity
      cases s <;> cases t <;> rw [abs_le] <;> simp only [withSign] <;> constructor <;> linarith
    rw [add_eq]
    exact roundedSum_within (minExponent_le_maxExponent hwide) (hsum.trans_lt (largest_lt hwide))

/-- **A tolerance for a finite size does not overflow**, if the relative tolerance is at most one half. -/
theorem tolerance_within (hwide : 0 < maxExponent fmt) {m : ℕ} {e : ℤ} (hm : 0 < m)
    (hrange : InRange fmt m e) (hhalf : (m : ℚ) * 2 ^ e ≤ 1 / 2) (hu : Canonical fmt u)
    (hfinite : u.isFinite = true) : Within (maxExponent fmt)
      (add fmt (.finite .positive m e hm) (repack fmt (mul fmt (.finite .positive m e hm) u))) := by
  have hproduct := mul_within hwide .positive hm hrange (by linarith) hu hfinite
  exact add_within hwide .positive hm hrange hhalf (canonical_unpack hwide _)
    ((isFinite_repack _).mpr hproduct)

end

end QpReferee.Ieee

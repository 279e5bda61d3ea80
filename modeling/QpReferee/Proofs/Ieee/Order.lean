import QpReferee.Proofs.Ieee.Operations

/-!
# The order of words is the order of their values

Finite words compare by their fields, and fields are in order exactly if the values are. The infinities are
at the two ends, so the order of a check is transitive.

* `value` : the value of a finite word.
* `le_iff_value_le` : **finite words compare as their values do.**
* `le_trans` : the order is transitive.
-/

namespace QpReferee.Ieee

open Float.Model (Format UnpackedFloat)
open Float.Model.UnpackedFloat

variable {fmt : Format} {u v w : UnpackedFloat}

def value : UnpackedFloat → ℚ
  | .finite s m e _ => withSign s (m * 2 ^ e)
  | _ => 0

theorem value_unpack {fmt : Format} {b : BitVec fmt.numBits} (hsign : unpackSign b = 0#1)
    (hfinite : unpackExponent b ≠ -1#(fmt.exponentBits)) :
    value (unpack fmt b) = if (unpackExponent b).toNat = 0 then
        ((unpackMantissa b).toNat : ℚ) * 2 ^ fmt.minExponent
      else ((2 ^ fmt.mantissaBitsWithoutImplicit + (unpackMantissa b).toNat : ℕ) : ℚ) *
        2 ^ (fmt.minExponent + ((unpackExponent b).toNat - 1)) := by
  have hzero : (unpackExponent b).toNat = 0 ↔ unpackExponent b = 0#(fmt.exponentBits) :=
    BitVec.toNat_inj (y := 0#_)
  have hpositive : Sign.ofBitVec (unpackSign b) = .positive := by
    rw [hsign]
    rfl
  unfold unpack
  dsimp only
  simp only [hzero, if_neg hfinite]
  split_ifs with hsubnormal hnothing
  · rw [hnothing]
    simp [value]
  · show withSign _ _ = _
    rw [hpositive, hsubnormal, minExponent_eq]
    simp only [withSign, BitVec.toNat_zero]
    congr 2
    push_cast
    ring
  · show withSign _ _ = _
    rw [hpositive, toNat_implicit, minExponent_eq]
    simp only [withSign]
    congr 2
    ring

theorem isLE_fields_iff {m n : ℕ} {e f : ℤ} (hm : InRange fmt m e) (hn : InRange fmt n f) :
    ((compare e f).then (compare m n)).isLE = true ↔ (m : ℚ) * 2 ^ e ≤ n * 2 ^ f := by
  have hfields : ((compare e f).then (compare m n)).isLE = true ↔ e < f ∨ e = f ∧ m ≤ n := by
    rcases lt_trichotomy e f with hlt | heq | hgt
    · simp [Int.compare_eq_lt.mpr hlt, hlt]
    · simp [heq, Nat.isLE_compare]
    · simp [Int.compare_eq_gt.mpr hgt]
      omega
  rw [hfields]
  constructor
  · exact magnitude_le_of_le hm hn
  · intro hle
    by_contra h
    have hlt := magnitude_lt_of_lt hn hm (by omega)
    exact absurd hle hlt.not_ge

theorem isGE_fields_iff {m n : ℕ} {e f : ℤ} (hm : InRange fmt m e) (hn : InRange fmt n f) :
    ((compare e f).then (compare m n)).swap.isLE = true ↔ -((m : ℚ) * 2 ^ e) ≤ -(n * 2 ^ f) := by
  rw [Ordering.swap_then, ← Int.compare_swap, ← Nat.compare_swap, Ordering.swap_swap, Ordering.swap_swap,
    isLE_fields_iff hn hm, neg_le_neg_iff]

/-- **Finite words compare as their values do.** -/
theorem le_iff_value_le (hu : Canonical fmt u) (hv : Canonical fmt v) (hfu : u.isFinite = true)
    (hfv : v.isFinite = true) : u.le v = true ↔ value u ≤ value v := by
  cases u with
  | notANumber => cases hfu
  | infinity s => cases hfu
  | zero s =>
    cases v with
    | notANumber => cases hfv
    | infinity t => cases hfv
    | zero t => exact ⟨fun _ => le_rfl, fun _ => rfl⟩
    | finite t n f hn =>
      have hpos : (0 : ℚ) < n * 2 ^ f := by positivity
      cases t with
      | positive => exact ⟨fun _ => hpos.le, fun _ => rfl⟩
      | negative => exact ⟨fun h => (by cases h), fun h => absurd h (neg_neg_of_pos hpos).not_ge⟩
  | finite s m e hm =>
    have hpos : (0 : ℚ) < m * 2 ^ e := by positivity
    cases v with
    | notANumber => cases hfv
    | infinity t => cases hfv
    | zero t =>
      cases s with
      | positive => exact ⟨fun h => (by cases h), fun h => absurd h hpos.not_ge⟩
      | negative => exact ⟨fun _ => (neg_neg_of_pos hpos).le, fun _ => rfl⟩
    | finite t n f hn =>
      have hpos' : (0 : ℚ) < n * 2 ^ f := by positivity
      cases s with
      | positive =>
        cases t with
        | positive => exact isLE_fields_iff hu hv
        | negative =>
          exact ⟨fun h => (by cases h), fun h => absurd h ((neg_neg_of_pos hpos').trans hpos).not_ge⟩
      | negative =>
        cases t with
        | positive => exact ⟨fun _ => ((neg_neg_of_pos hpos).trans hpos').le, fun _ => rfl⟩
        | negative => exact isGE_fields_iff hu hv

/-! ## The ends -/

theorem le_infinity (hu : u.isNaN = false) : u.le (.infinity .positive) = true := by
  cases u with
  | notANumber => cases hu
  | infinity s => cases s <;> rfl
  | zero s => rfl
  | finite s m e hm => rfl

theorem negative_infinity_le (hu : u.isNaN = false) : (UnpackedFloat.infinity .negative).le u = true := by
  cases u with
  | notANumber => cases hu
  | infinity s => cases s <;> rfl
  | zero s => rfl
  | finite s m e hm => rfl

theorem eq_infinity_of_infinity_le (h : (UnpackedFloat.infinity .positive).le u = true) :
    u = .infinity .positive := by
  cases u with
  | notANumber => cases h
  | infinity s =>
    cases s with
    | positive => rfl
    | negative => cases h
  | zero s => cases h
  | finite s m e hm => cases h

theorem eq_infinity_of_le_infinity (h : u.le (.infinity .negative) = true) : u = .infinity .negative := by
  cases u with
  | notANumber => cases h
  | infinity s =>
    cases s with
    | positive => cases h
    | negative => rfl
  | zero s => cases h
  | finite s m e hm => cases h

theorem isFinite_or_infinity (hu : u.isNaN = false) :
    u.isFinite = true ∨ u = .infinity .positive ∨ u = .infinity .negative := by
  cases u with
  | notANumber => cases hu
  | infinity s => cases s <;> simp
  | zero s => exact .inl rfl
  | finite s m e hm => exact .inl rfl

theorem le_trans (hu : Canonical fmt u) (hv : Canonical fmt v) (hw : Canonical fmt w)
    (huv : u.le v = true) (hvw : v.le w = true) : u.le w = true := by
  obtain ⟨hnu, hnv⟩ := isNaN_of_le huv
  have hnw := (isNaN_of_le hvw).2
  rcases isFinite_or_infinity hnv with hfv | rfl | rfl
  · rcases isFinite_or_infinity hnu with hfu | rfl | rfl
    · rcases isFinite_or_infinity hnw with hfw | rfl | rfl
      · rw [le_iff_value_le hu hv hfu hfv] at huv
        rw [le_iff_value_le hv hw hfv hfw] at hvw
        exact (le_iff_value_le hu hw hfu hfw).mpr (huv.trans hvw)
      · exact le_infinity hnu
      · rw [eq_infinity_of_le_infinity hvw] at huv
        exact huv
    · rw [eq_infinity_of_infinity_le huv] at hvw
      exact hvw
    · exact negative_infinity_le hnw
  · rw [eq_infinity_of_infinity_le hvw]
    exact le_infinity hnu
  · rw [eq_infinity_of_le_infinity huv]
    exact negative_infinity_le hnw

end QpReferee.Ieee

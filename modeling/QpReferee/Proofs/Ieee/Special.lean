import QpReferee.Proofs.Numbers

/-!
# Zeros, infinities and values that are no number

To multiply by zero is not to leave out: zero times a finite number is a zero, zero times anything else is no
number. To add a zero is to leave out, but for the sign of a zero, which no comparison sees.

* `Scalar.Same` : numerically the same; values that are no number are the same as each other.
* `IeeeScalar.same_iff` : the same are the words that differ at most in the sign of a zero.
* `Ieee.div_eq_mul_inverse` : a quotient as a product.
* `IeeeScalar.isNaN_mul_iff` : **when a product is no number.**
* `IeeeScalar.same_add_zero`, `IeeeScalar.same_mul_one` : what changes no value.
-/

namespace QpReferee

open Float.Model (Format UnpackedFloat)
open Float.Model.UnpackedFloat

namespace Ieee

variable {fmt : Format} {u v : UnpackedFloat}

/-! ## Equality of words -/

theorem beq_of_le (huv : u.le v = true) (hvu : v.le u = true) : u.beq v = true := by
  obtain ⟨hu, hv⟩ := isNaN_of_le huv
  obtain ⟨order, horder⟩ := exists_compare hu hv
  unfold UnpackedFloat.le at huv hvu
  unfold UnpackedFloat.beq
  rw [compare_swap u v] at hvu
  rw [horder] at huv hvu ⊢
  cases order with
  | lt => cases hvu
  | eq => rfl
  | gt => cases huv

theorem fields_eq {m n : ℕ} {e f : ℤ} (h : (compare e f).then (compare m n) = .eq) : e = f ∧ m = n := by
  rw [Ordering.then_eq_eq, Int.compare_eq_eq, Nat.compare_eq_eq] at h
  exact h

theorem unsigned_eq_of_beq (h : u.beq v = true) : unsigned u = unsigned v := by
  have hcompare : u.compare v = some .eq := by simpa [UnpackedFloat.beq] using h
  cases u with
  | notANumber => cases hcompare
  | infinity s =>
    cases v with
    | infinity t =>
      cases s <;> cases t <;> first
        | rfl
        | cases hcompare
    | _ => cases s <;> cases hcompare
  | zero s =>
    cases v with
    | zero t => rfl
    | notANumber => cases hcompare
    | infinity t => cases t <;> cases hcompare
    | finite t n f hn => cases t <;> cases hcompare
  | finite s m e hm =>
    cases v with
    | notANumber => cases s <;> cases hcompare
    | infinity t => cases s <;> cases t <;> cases hcompare
    | zero t => cases s <;> cases hcompare
    | finite t n f hn =>
      cases s with
      | positive =>
        cases t with
        | positive =>
          obtain ⟨rfl, rfl⟩ := fields_eq (Option.some.inj hcompare)
          rfl
        | negative => cases hcompare
      | negative =>
        cases t with
        | positive => cases hcompare
        | negative =>
          have hswap : ((compare e f).then (compare m n)).swap = .eq := Option.some.inj hcompare
          obtain ⟨rfl, rfl⟩ := fields_eq (Ordering.swap_eq_eq.mp hswap)
          rfl

theorem beq_of_unsigned_eq (hu : u.isNaN = false) (h : unsigned u = unsigned v) : u.beq v = true := by
  have hle : (unsigned u).le (unsigned u) = true := by
    have hnumber : (unsigned u).isNaN = false := by cases u <;> first | rfl | cases hu
    exact (le_total hnumber hnumber).elim id id
  apply beq_of_le
  · rw [← unsigned_le, ← le_unsigned, ← h]
    exact hle
  · rw [← unsigned_le, ← le_unsigned, ← h]
    exact hle

theorem isNaN_iff_unsigned : u.isNaN = true ↔ unsigned u = .notANumber := by
  cases u <;> simp [UnpackedFloat.isNaN, unsigned]

theorem beq_zero_iff {s : Sign} : u.beq (.zero s) = true ↔ ∃ t, u = .zero t := by
  constructor
  · intro h
    have hzero := unsigned_eq_of_beq h
    cases u with
    | zero t => exact ⟨t, rfl⟩
    | _ => cases hzero
  · rintro ⟨t, rfl⟩
    rfl

/-! ## Products and sums -/

theorem isNaN_roundWithAccuracy (s : Sign) (m : ℕ) (e : ℤ) (accuracy : Accuracy) :
    (roundWithAccuracy fmt s m e accuracy).isNaN = false := by
  unfold roundWithAccuracy
  dsimp only
  split_ifs <;> rfl

theorem isNaN_mul_iff : (mul fmt u v).isNaN = true ↔ u.isNaN = true ∨ v.isNaN = true ∨
    u.isInf = true ∧ v.beq (.zero .positive) = true ∨ u.beq (.zero .positive) = true ∧ v.isInf = true := by
  rw [beq_zero_iff, beq_zero_iff]
  cases u with
  | finite s m e hm =>
    cases v with
    | finite t n f hn =>
      rw [mul, isNaN_roundWithAccuracy]
      simp [UnpackedFloat.isNaN, UnpackedFloat.isInf]
    | _ => simp [mul, UnpackedFloat.isNaN, UnpackedFloat.isInf]
  | _ => cases v <;> simp [mul, UnpackedFloat.isNaN, UnpackedFloat.isInf]

theorem mul_zero_eq (fmt : Format) (s : Sign) (hv : v.isFinite = true) :
    ∃ t, mul fmt (.zero s) v = .zero t := by
  cases v with
  | notANumber => cases hv
  | infinity t => cases hv
  | zero t => exact ⟨_, rfl⟩
  | finite t n f hn => exact ⟨_, rfl⟩

theorem unsigned_add_zero (hu : Canonical fmt u) (s : Sign) :
    unsigned (repack fmt (add fmt u (.zero s))) = unsigned u := by
  have hsame (w : UnpackedFloat) (hw : Canonical fmt w) (h : add fmt w (.zero s) = w) :
      unsigned (repack fmt (add fmt w (.zero s))) = unsigned w := by
    rw [h, repack_of_canonical hw]
  cases u with
  | zero t =>
    have hzero : Canonical fmt (add fmt (.zero t) (.zero s)) := by cases t <;> cases s <;> trivial
    rw [repack_of_canonical hzero]
    cases t <;> cases s <;> rfl
  | _ => exact hsame _ hu rfl

theorem repack_mul_one (hwide : 0 < maxExponent fmt) (hu : Canonical fmt u) :
    repack fmt (mul fmt u (one fmt)) = u := by
  have hsign (s : Sign) : s * .positive = s := by cases s <;> rfl
  cases u with
  | notANumber => exact repack_notANumber
  | infinity s =>
    rw [one, mul, hsign]
    exact repack_infinity s
  | zero s =>
    rw [one, mul, hsign]
    exact repack_of_canonical hu
  | finite s m e hm =>
    have hone : (((2 : ℕ) ^ fmt.mantissaBitsWithoutImplicit : ℕ) : ℚ) *
        2 ^ (-(fmt.mantissaBitsWithoutImplicit : ℤ)) = 1 := by
      rw [zpow_neg, zpow_natCast]
      push_cast
      exact mul_inv_cancel₀ (by positivity)
    rw [one, mul_eq s .positive hm _ hu (inRange_one hwide), hsign, hone, mul_one,
      rounded_of_canonical s hm hu]
    exact repack_of_canonical hu

/-- To divide by a number is to multiply by its inverse, if that is a number of the format: both round the same
exact value. -/
theorem div_eq_mul_inverse {m n : ℕ} {e f : ℤ} (hm : 0 < m) (hn : 0 < n) (hrange : InRange fmt m e)
    (hinverse : (m : ℚ) * 2 ^ e * (n * 2 ^ f) = 1) (hu : Canonical fmt u) :
    div fmt u (.finite .positive n f hn) = mul fmt (.finite .positive m e hm) u := by
  have hsign (s : Sign) : s / .positive = .positive * s := by cases s <;> rfl
  cases u with
  | notANumber => rfl
  | infinity s => exact congrArg UnpackedFloat.infinity (hsign s)
  | zero s => exact congrArg UnpackedFloat.zero (hsign s)
  | finite s k d hk =>
    have hdivisor : (n : ℚ) * 2 ^ f ≠ 0 := right_ne_zero_of_mul_eq_one hinverse
    have hvalue : (k : ℚ) * 2 ^ d / (n * 2 ^ f) = m * 2 ^ e * (k * 2 ^ d) := by
      rw [div_eq_iff hdivisor, mul_right_comm, hinverse, one_mul]
    rw [div_eq, mul_eq .positive s hm hk hrange hu, hsign, hvalue]

end Ieee

/-! ## Scalars -/

section

variable {T : Type} [Scalar T]

/-- Numerically the same: equal, or both no number. -/
def Scalar.Same (a b : T) : Prop :=
  Scalar.eq a b = true ∨ Scalar.isNaN a = true ∧ Scalar.isNaN b = true

def Scalar.Infinite (a : T) : Prop := Scalar.isFinite a = false ∧ Scalar.isNaN a = false

namespace IeeeScalar

open Ieee

variable [IeeeScalar T] {a b c d : T}

/-- **The same are the words that differ at most in the sign of a zero.** -/
theorem same_iff : Scalar.Same a b ↔
    unsigned (unpack (format T) (bits a)) = unsigned (unpack (format T) (bits b)) := by
  unfold Scalar.Same
  rw [eq, isNaN, isNaN, isNaN_iff_unsigned, isNaN_iff_unsigned]
  constructor
  · rintro (h | ⟨ha, hb⟩)
    · exact unsigned_eq_of_beq h
    · rw [ha, hb]
  · intro h
    by_cases ha : unsigned (unpack (format T) (bits a)) = .notANumber
    · exact .inr ⟨ha, h ▸ ha⟩
    · exact .inl (beq_of_unsigned_eq (Bool.eq_false_iff.mpr fun hnan => ha (isNaN_iff_unsigned.mp hnan)) h)

theorem same_refl (a : T) : Scalar.Same a a := same_iff.mpr rfl

theorem same_trans (hab : Scalar.Same a b) (hbc : Scalar.Same b c) : Scalar.Same a c :=
  same_iff.mpr ((same_iff.mp hab).trans (same_iff.mp hbc))

theorem isNaN_of_same (h : Scalar.Same a b) : Scalar.isNaN a = Scalar.isNaN b := by
  rw [same_iff] at h
  rw [isNaN, isNaN, Bool.eq_iff_iff, isNaN_iff_unsigned, isNaN_iff_unsigned, h]

theorem same_of_le (hab : Scalar.le a b = true) (hba : Scalar.le b a = true) : Scalar.Same a b := by
  rw [le] at hab hba
  exact .inl ((eq a b).trans (beq_of_le hab hba))

theorem exists_zero (h : Scalar.eq a 0 = true) : ∃ s, unpack (format T) (bits a) = .zero s := by
  rw [eq, zero] at h
  exact beq_zero_iff.mp h

theorem infinite_iff : Scalar.Infinite a ↔ (unpack (format T) (bits a)).isInf = true := by
  unfold Scalar.Infinite
  rw [isFinite, isNaN]
  cases unpack (format T) (bits a) <;>
    simp [UnpackedFloat.isFinite, UnpackedFloat.isNaN, UnpackedFloat.isInf]

/-- **When a product is no number.** -/
theorem isNaN_mul_iff : Scalar.isNaN (a * b) = true ↔ Scalar.isNaN a = true ∨ Scalar.isNaN b = true ∨
    Scalar.Infinite a ∧ Scalar.eq b 0 = true ∨ Scalar.eq a 0 = true ∧ Scalar.Infinite b := by
  rw [infinite_iff, infinite_iff, eq, eq, zero, isNaN, isNaN, isNaN, mul, isNaN_repack]
  exact Ieee.isNaN_mul_iff

theorem isNaN_zero_mul (ha : Scalar.eq a 0 = true) (hb : Scalar.isFinite b = false) :
    Scalar.isNaN (a * b) = true := by
  rw [isNaN_mul_iff]
  by_cases hnan : Scalar.isNaN b = true
  · exact .inr (.inl hnan)
  · exact .inr (.inr (.inr ⟨ha, hb, Bool.eq_false_iff.mpr hnan⟩))

theorem eq_zero_mul (ha : Scalar.eq a 0 = true) (hb : Scalar.isFinite b = true) :
    Scalar.eq (a * b) 0 = true := by
  obtain ⟨s, hs⟩ := exists_zero ha
  rw [isFinite] at hb
  obtain ⟨t, ht⟩ := mul_zero_eq (format T) s hb
  rw [eq, zero, mul, hs, ht, repack_of_canonical (u := .zero t) trivial]
  rfl

theorem same_add_zero (hd : Scalar.eq d 0 = true) (a : T) : Scalar.Same (a + d) a := by
  obtain ⟨s, hs⟩ := exists_zero hd
  rw [same_iff, add, hs]
  exact unsigned_add_zero (canonical a) s

theorem same_mul_one (hb : Scalar.eq b 1 = true) (a : T) : Scalar.Same a (a * b) := by
  have hone : unpack (format T) (bits b) = Ieee.one (format T) := by
    rw [eq, one] at hb
    have hunsigned := unsigned_eq_of_beq hb
    generalize unpack (format T) (bits b) = v at hunsigned
    cases v with
    | zero s => cases hunsigned
    | _ => exact hunsigned
  rw [same_iff, mul, hone, repack_mul_one wide (canonical a)]

end IeeeScalar

end

end QpReferee

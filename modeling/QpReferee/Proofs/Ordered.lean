import QpReferee.Proofs.Exact
import QpReferee.Proofs.Ieee.Monotone
import QpReferee.Proofs.Ieee.Scalars

/-!
# Scalars that are rounded in order

What a comparison of two checks needs of the scalars: a transitive order that is total on the numbers,
sums and products of numbers that are not below zero in the order of their operands, and tolerances in the
order of their tiers. Exact arithmetic has all of it, and so have both floating point types, in which a
result may be rounded, overflow or be no number.

* `OrderedScalar` : the order, sums and products.
* `OrderedTiers` : the tolerances.
-/

namespace QpReferee

/-- Scalars with a transitive order that is total on the numbers, and with monotone sums and products. -/
class OrderedScalar (T : Type) [Scalar T] : Prop where
  isNaN_of_le {a b : T} : Scalar.le a b = true → Scalar.isNaN a = false ∧ Scalar.isNaN b = false
  le_total {a b : T} : Scalar.isNaN a = false → Scalar.isNaN b = false →
    Scalar.le a b = true ∨ Scalar.le b a = true
  le_trans {a b c : T} : Scalar.le a b = true → Scalar.le b c = true → Scalar.le a c = true
  zero_le_zero : Scalar.le (0 : T) 0 = true
  zero_le_abs {a : T} : Scalar.isNaN a = false → Scalar.le 0 (Scalar.abs a) = true
  isNaN_of_add {a b : T} : Scalar.isNaN (a + b) = false →
    Scalar.isNaN a = false ∧ Scalar.isNaN b = false
  isNaN_of_mul {a b : T} : Scalar.isNaN (a * b) = false →
    Scalar.isNaN a = false ∧ Scalar.isNaN b = false
  zero_le_mul {a b : T} : Scalar.le 0 a = true → Scalar.isFinite a = true → Scalar.le 0 b = true →
    Scalar.isNaN (a * b) = false → Scalar.le 0 (a * b) = true
  add_le_add {a b c d : T} : Scalar.le 0 a = true → Scalar.le a b = true → Scalar.le 0 c = true →
    Scalar.le c d = true → Scalar.le (a + c) (b + d) = true
  mul_le_mul {a b c : T} : Scalar.le 0 a = true → Scalar.le a b = true → Scalar.isFinite b = true →
    Scalar.le 0 c = true → Scalar.isNaN (a * c) = false → Scalar.le (a * c) (b * c) = true

/-- Scalars in which the tolerances are numbers above zero, and a higher tier has a smaller one. -/
class OrderedTiers (T : Type) [Scalar T] : Prop where
  zero_le_absolute (tier : Tier) : Scalar.le 0 (tier.absolute : T) = true
  isFinite_absolute (tier : Tier) : Scalar.isFinite (tier.absolute : T) = true
  high_le_standard : Scalar.le (Tier.high.absolute : T) Tier.standard.absolute = true

/-! ## Exact arithmetic -/

section

variable {K : Type} [OrderedField K]

instance : OrderedScalar K where
  isNaN_of_le _ := ⟨rfl, rfl⟩
  le_total _ _ := by simpa using le_total _ _
  le_trans hab hbc := by
    simp only [Scalar.le_exact, decide_eq_true_eq] at *
    exact hab.trans hbc
  zero_le_zero := by simp
  zero_le_abs _ := by simp
  isNaN_of_add _ := ⟨rfl, rfl⟩
  isNaN_of_mul _ := ⟨rfl, rfl⟩
  zero_le_mul ha _ hb _ := by
    simp only [Scalar.le_exact, decide_eq_true_eq] at *
    exact mul_nonneg ha hb
  add_le_add _ hab _ hcd := by
    simp only [Scalar.le_exact, decide_eq_true_eq] at *
    exact add_le_add hab hcd
  mul_le_mul _ hab _ hc _ := by
    simp only [Scalar.le_exact, decide_eq_true_eq] at *
    exact mul_le_mul_of_nonneg_right hab hc

instance : OrderedTiers K where
  zero_le_absolute tier := by cases tier <;> simp [Tier.absolute]
  isFinite_absolute _ := rfl
  high_le_standard := by
    simp only [Tier.absolute, Scalar.ofRatio_exact, Scalar.le_exact, decide_eq_true_eq]
    norm_num

end

instance : @OrderedScalar ℚ instScalarRat :=
  Scalar.exact_rat ▸ (inferInstance : @OrderedScalar ℚ (.exact ℚ))

instance : @OrderedTiers ℚ instScalarRat :=
  Scalar.exact_rat ▸ (inferInstance : @OrderedTiers ℚ (.exact ℚ))

/-! ## Binary formats -/

section

open Float.Model.UnpackedFloat
open Ieee

variable {T : Type} [Scalar T] [IeeeScalar T]

namespace IeeeScalar

variable {a b c d : T}

theorem zero_le_iff : Scalar.le 0 a = true ↔
    (Float.Model.UnpackedFloat.zero .positive).le (unpack (format T) (bits a)) = true := by
  rw [le, zero]

theorem le_trans (hab : Scalar.le a b = true) (hbc : Scalar.le b c = true) : Scalar.le a c = true := by
  rw [le] at hab hbc ⊢
  exact Ieee.le_trans (canonical a) (canonical b) (canonical c) hab hbc

theorem isNaN_of_add (h : Scalar.isNaN (a + b) = false) :
    Scalar.isNaN a = false ∧ Scalar.isNaN b = false := by
  rw [isNaN, add] at h
  rw [isNaN, isNaN]
  exact Ieee.isNaN_of_add h

theorem isNaN_of_mul (h : Scalar.isNaN (a * b) = false) :
    Scalar.isNaN a = false ∧ Scalar.isNaN b = false := by
  rw [isNaN, mul] at h
  rw [isNaN, isNaN]
  exact Ieee.isNaN_of_mul h

theorem zero_le_mul (ha : Scalar.le 0 a = true) (hfinite : Scalar.isFinite a = true)
    (hb : Scalar.le 0 b = true) (hnumber : Scalar.isNaN (a * b) = false) : Scalar.le 0 (a * b) = true := by
  rw [zero_le_iff] at ha hb ⊢
  rw [isFinite] at hfinite
  rw [isNaN, mul] at hnumber
  rw [mul]
  exact zero_le_repack_mul (canonical a) (canonical b) ha hfinite hb hnumber

theorem add_le_add (ha : Scalar.le 0 a = true) (hab : Scalar.le a b = true) (hc : Scalar.le 0 c = true)
    (hcd : Scalar.le c d = true) : Scalar.le (a + c) (b + d) = true := by
  rw [zero_le_iff] at ha hc
  rw [le] at hab hcd
  rw [le, add, add]
  exact repack_add_le wide (canonical a) (canonical b) (canonical c) (canonical d) ha hab hc hcd

theorem mul_le_mul (ha : Scalar.le 0 a = true) (hab : Scalar.le a b = true)
    (hfinite : Scalar.isFinite b = true) (hc : Scalar.le 0 c = true)
    (hnumber : Scalar.isNaN (a * c) = false) : Scalar.le (a * c) (b * c) = true := by
  rw [zero_le_iff] at ha hc
  rw [le] at hab
  rw [isFinite] at hfinite
  rw [isNaN, mul] at hnumber
  rw [le, mul, mul]
  exact repack_mul_le wide (canonical a) (canonical b) (canonical c) ha hab hfinite hc hnumber

/-- Tolerances are finite numbers above zero, so only their order is left. -/
theorem orderedTiers (h : Scalar.le (Tier.high.absolute : T) Tier.standard.absolute = true) :
    OrderedTiers T where
  zero_le_absolute tier := by
    obtain ⟨m, e, hm, hread, -⟩ := tolerance (T := T) tier
    rw [zero_le_iff, hread]
    rfl
  isFinite_absolute := isFinite_absolute
  high_le_standard := h

end IeeeScalar

instance : OrderedScalar T where
  isNaN_of_le := IeeeScalar.isNaN_of_le
  le_total := IeeeScalar.le_total
  le_trans := IeeeScalar.le_trans
  zero_le_zero := IeeeScalar.zero_le_zero
  zero_le_abs := IeeeScalar.zero_le_abs
  isNaN_of_add := IeeeScalar.isNaN_of_add
  isNaN_of_mul := IeeeScalar.isNaN_of_mul
  zero_le_mul := IeeeScalar.zero_le_mul
  add_le_add := IeeeScalar.add_le_add
  mul_le_mul := IeeeScalar.mul_le_mul

end

instance : OrderedTiers Float := IeeeScalar.orderedTiers <| by
  rw [absolute_high, absolute_standard]
  decide

instance : OrderedTiers Float32 := IeeeScalar.orderedTiers <| by
  rw [absolute_high_single, absolute_standard_single]
  decide

end QpReferee

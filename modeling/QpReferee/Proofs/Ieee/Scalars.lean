import QpReferee.Kkt.Tolerance
import QpReferee.Proofs.Ieee.Operations

/-!
# Scalars of a binary format

* `IeeeScalar` : scalars that are the words of a binary format, with its operations; both floating point
  types are such scalars.
-/

namespace QpReferee

open Float.Model (Format UnpackedFloat)
open Float.Model.UnpackedFloat
open Ieee

/-- Scalars that are the words of a binary format. Every operation unpacks its operands and packs its
result. -/
class IeeeScalar (T : Type) [Scalar T] where
  format : Format
  bits : T → BitVec format.numBits
  wide : 0 < maxExponent format
  zero : unpack format (bits 0) = .zero .positive
  one : unpack format (bits 1) = Ieee.one format
  add (a b : T) : unpack format (bits (a + b)) =
    repack format (add format (unpack format (bits a)) (unpack format (bits b)))
  sub (a b : T) : unpack format (bits (a - b)) =
    repack format (sub format (unpack format (bits a)) (unpack format (bits b)))
  mul (a b : T) : unpack format (bits (a * b)) =
    repack format (mul format (unpack format (bits a)) (unpack format (bits b)))
  div (a b : T) : unpack format (bits (a / b)) =
    repack format (div format (unpack format (bits a)) (unpack format (bits b)))
  neg (a : T) : unpack format (bits (-a)) = repack format (unpack format (bits a)).neg
  abs (a : T) : unpack format (bits (Scalar.abs a)) = repack format (unpack format (bits a)).abs
  le (a b : T) : Scalar.le a b = (unpack format (bits a)).le (unpack format (bits b))
  eq (a b : T) : Scalar.eq a b = (unpack format (bits a)).beq (unpack format (bits b))
  isNaN (a : T) : Scalar.isNaN a = (unpack format (bits a)).isNaN
  isFinite (a : T) : Scalar.isFinite a = (unpack format (bits a)).isFinite
  /-- A tolerance is a positive number up to one half. -/
  tolerance (tier : Tier) : ∃ m e hm, unpack format (bits tier.absolute) = .finite .positive m e hm ∧
    (m : ℚ) * 2 ^ e ≤ 1 / 2

theorem absolute_standard : (Tier.standard.absolute : Float) = .ofBits 0x3f50624dd2f1a9fc := by
  have hword : BinaryFormat.binary64.nearest 1 1000 = 0x3f50624dd2f1a9fc := by decide +kernel
  exact congrArg (fun n => Float.ofBits (UInt64.ofNat n)) hword

theorem absolute_high : (Tier.high.absolute : Float) = .ofBits 0x3ee4f8b588e368f1 := by
  have hword : BinaryFormat.binary64.nearest 1 100000 = 0x3ee4f8b588e368f1 := by decide +kernel
  exact congrArg (fun n => Float.ofBits (UInt64.ofNat n)) hword

/-- Double precision. -/
instance : IeeeScalar Float where
  format := .binary64
  bits x := x.toBits.toBitVec
  wide := by decide
  zero := by with_unfolding_all rfl
  one := by with_unfolding_all rfl
  add _ _ := rfl
  sub _ _ := rfl
  mul _ _ := rfl
  div _ _ := rfl
  neg _ := rfl
  abs _ := rfl
  le _ _ := by
    change decide (decide (_ = true) = true) = _
    rw [Bool.decide_eq_true, Bool.decide_eq_true]
    rfl
  eq _ _ := rfl
  isNaN _ := rfl
  isFinite _ := rfl
  tolerance tier := by
    cases tier with
    | standard =>
      rw [absolute_standard]
      exact ⟨0x10624dd2f1a9fc, -62, by decide, by with_unfolding_all rfl, by norm_num⟩
    | high =>
      rw [absolute_high]
      exact ⟨0x14f8b588e368f1, -69, by decide, by with_unfolding_all rfl, by norm_num⟩

theorem absolute_standard_single : (Tier.standard.absolute : Float32) = .ofBits 0x3a83126f := by
  have hword : BinaryFormat.binary64.convert .binary32 (BinaryFormat.binary64.nearest 1 1000) =
      0x3a83126f := by decide +kernel
  exact congrArg (fun n => Float32.ofBits (UInt32.ofNat n)) hword

theorem absolute_high_single : (Tier.high.absolute : Float32) = .ofBits 0x3727c5ac := by
  have hword : BinaryFormat.binary64.convert .binary32 (BinaryFormat.binary64.nearest 1 100000) =
      0x3727c5ac := by decide +kernel
  exact congrArg (fun n => Float32.ofBits (UInt32.ofNat n)) hword

/-- Single precision. -/
instance : IeeeScalar Float32 where
  format := .binary32
  bits x := x.toBits.toBitVec
  wide := by decide
  zero := by with_unfolding_all rfl
  one := by with_unfolding_all rfl
  add _ _ := rfl
  sub _ _ := rfl
  mul _ _ := rfl
  div _ _ := rfl
  neg _ := rfl
  abs _ := rfl
  le _ _ := by
    change decide (decide (_ = true) = true) = _
    rw [Bool.decide_eq_true, Bool.decide_eq_true]
    rfl
  eq _ _ := rfl
  isNaN _ := rfl
  isFinite _ := rfl
  tolerance tier := by
    cases tier with
    | standard =>
      rw [absolute_standard_single]
      exact ⟨0x83126f, -33, by decide, by with_unfolding_all rfl, by norm_num⟩
    | high =>
      rw [absolute_high_single]
      exact ⟨0xa7c5ac, -40, by decide, by with_unfolding_all rfl, by norm_num⟩

namespace IeeeScalar

variable {T : Type} [Scalar T] [IeeeScalar T] {a b c : T}

/-! ## Finite results -/

theorem canonical (a : T) : Canonical (format T) (unpack (format T) (bits a)) := canonical_unpack wide _

theorem isFinite_of_add (h : Scalar.isFinite (a + b) = true) :
    Scalar.isFinite a = true ∧ Scalar.isFinite b = true := by
  rw [isFinite, add] at h
  rw [isFinite, isFinite]
  exact Ieee.isFinite_of_add ((isFinite_repack _).mp h)

theorem isFinite_of_sub (h : Scalar.isFinite (a - b) = true) :
    Scalar.isFinite a = true ∧ Scalar.isFinite b = true := by
  rw [isFinite, sub] at h
  rw [isFinite, isFinite]
  exact Ieee.isFinite_of_sub ((isFinite_repack _).mp h)

theorem isFinite_of_mul (h : Scalar.isFinite (a * b) = true) :
    Scalar.isFinite a = true ∧ Scalar.isFinite b = true := by
  rw [isFinite, mul] at h
  rw [isFinite, isFinite]
  exact Ieee.isFinite_of_mul ((isFinite_repack _).mp h)

theorem isNaN_of_isFinite (h : Scalar.isFinite a = true) : Scalar.isNaN a = false := by
  rw [isFinite] at h
  rw [isNaN]
  exact Ieee.isNaN_of_isFinite h

theorem abs_exact (a : T) :
    unpack (format T) (bits (Scalar.abs a)) = (unpack (format T) (bits a)).abs := by
  rw [abs, repack_of_canonical (canonical_abs (canonical a))]

theorem isFinite_abs (a : T) : Scalar.isFinite (Scalar.abs a) = Scalar.isFinite a := by
  rw [isFinite, abs_exact, isFinite, Ieee.isFinite_abs]

theorem isNaN_abs (a : T) : Scalar.isNaN (Scalar.abs a) = Scalar.isNaN a := by
  rw [isNaN, abs_exact, isNaN, Ieee.isNaN_abs]

theorem isFinite_zero : Scalar.isFinite (0 : T) = true := by
  rw [isFinite, zero]
  rfl

theorem isFinite_absolute (tier : Tier) : Scalar.isFinite (tier.absolute : T) = true := by
  obtain ⟨m, e, hm, hread, -⟩ := tolerance (T := T) tier
  rw [isFinite, hread]
  rfl

/-! ## The order -/

theorem isNaN_of_le (h : Scalar.le a b = true) : Scalar.isNaN a = false ∧ Scalar.isNaN b = false := by
  rw [le] at h
  rw [isNaN, isNaN]
  exact Ieee.isNaN_of_le h

theorem le_total (ha : Scalar.isNaN a = false) (hb : Scalar.isNaN b = false) :
    Scalar.le a b = true ∨ Scalar.le b a = true := by
  rw [isNaN] at ha hb
  rw [le, le]
  exact Ieee.le_total ha hb

theorem zero_le_abs (ha : Scalar.isNaN a = false) : Scalar.le 0 (Scalar.abs a) = true := by
  rw [isNaN] at ha
  rw [le, zero, abs_exact]
  exact Ieee.zero_le_abs ha

theorem zero_le_zero : Scalar.le (0 : T) 0 = true := by
  rw [le, zero]
  rfl

theorem one_le_one : Scalar.le (1 : T) 1 = true := by
  have hone : Scalar.isNaN (1 : T) = false := by
    rw [isNaN, one]
    rfl
  exact (le_total hone hone).elim id id

theorem isFinite_of_le (hpos : Scalar.le 0 a = true) (hle : Scalar.le a b = true)
    (hb : Scalar.isFinite b = true) : Scalar.isFinite a = true := by
  rw [le, zero] at hpos
  rw [le] at hle
  rw [isFinite] at hb ⊢
  exact Ieee.isFinite_of_le hpos hle hb

theorem isFinite_of_abs_le (hle : Scalar.le (Scalar.abs a) b = true) (hb : Scalar.isFinite b = true) :
    Scalar.isFinite a = true := by
  have ha : Scalar.isNaN a = false := by
    rw [← isNaN_abs]
    exact (isNaN_of_le hle).1
  rw [← isFinite_abs]
  exact isFinite_of_le (zero_le_abs ha) hle hb

/-! ## Results that cannot overflow -/

theorem isFinite_div (ha : Scalar.isFinite a = true) (hb : Scalar.le 1 b = true) :
    Scalar.isFinite (a / b) = true := by
  rw [isFinite] at ha
  rw [le, one] at hb
  rw [isFinite, div, isFinite_repack]
  exact div_within wide (canonical a) ha (canonical b) hb

theorem isFinite_of_div_le (hb : Scalar.le 1 b = true) (hle : Scalar.le (Scalar.abs a / b) c = true)
    (hc : Scalar.isFinite c = true) : Scalar.isFinite a = true := by
  rw [le, one] at hb
  rw [le, div, abs_exact] at hle
  rw [isFinite] at hc ⊢
  exact Ieee.isFinite_of_div_le wide (canonical b) hb hle hc

theorem isFinite_tolerance (tier : Tier) (ha : Scalar.isFinite a = true) :
    Scalar.isFinite (tier.absolute + tier.relative * a) = true := by
  obtain ⟨m, e, hm, hread, hhalf⟩ := tolerance (T := T) tier
  have hrange : InRange (format T) m e := by
    have := canonical (tier.absolute : T)
    rwa [hread] at this
  rw [isFinite] at ha
  rw [Tier.relative, isFinite, add, mul, hread, isFinite_repack]
  exact tolerance_within wide hm hrange hhalf (canonical a) ha

end IeeeScalar

end QpReferee

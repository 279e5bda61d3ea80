import QpReferee.Decimal.Binary

/-!
# Scalars

The kernels are written once, over any type with the operations of `Scalar`. The class states no
laws: binary floating point numbers satisfy few, the rational numbers all.

* `Scalar.max`, `Scalar.min` : a value that is no number loses to any number.
* `BinaryScalar` : scalars that are the numbers of a binary format, read and written by their bits.
-/

namespace QpReferee

/-- Arithmetic, order and classification of the numbers a problem is stated in. -/
class Scalar (T : Type) where
  [toZero : Zero T]
  [toOne : One T]
  [toAdd : Add T]
  [toSub : Sub T]
  [toMul : Mul T]
  [toDiv : Div T]
  [toNeg : Neg T]
  abs : T → T
  /-- The order that a check uses; false if either side is no number. -/
  le : T → T → Bool
  /-- Numerical equality: the two zeros are equal, and a value that is no number equals nothing. -/
  eq : T → T → Bool
  isNaN : T → Bool
  isFinite : T → Bool
  /-- The scalar nearest to a natural number. -/
  ofNat : Nat → T
  /-- The scalar that a constant `num / den` stands for. -/
  ofRatio : Nat → Nat → T

-- a type that has an operation from elsewhere is read with that one
section

variable {T : Type} [Scalar T]

instance (priority := low) Scalar.instZero : Zero T := Scalar.toZero

instance (priority := low) Scalar.instOne : One T := Scalar.toOne

instance (priority := low) Scalar.instAdd : Add T := Scalar.toAdd

instance (priority := low) Scalar.instSub : Sub T := Scalar.toSub

instance (priority := low) Scalar.instMul : Mul T := Scalar.toMul

instance (priority := low) Scalar.instDiv : Div T := Scalar.toDiv

instance (priority := low) Scalar.instNeg : Neg T := Scalar.toNeg

end

namespace Scalar

variable {T : Type} [Scalar T]

def max (a b : T) : T :=
  if isNaN a then b else if isNaN b then a else if le a b then b else a

def min (a b : T) : T :=
  if isNaN a then b else if isNaN b then a else if le a b then a else b

end Scalar

/-- Scalars that are the numbers of a binary format. -/
class BinaryScalar (T : Type) extends Scalar T where
  format : BinaryFormat
  toBits : T → Nat
  /-- The scalar with the given bits. -/
  ofBits : Nat → T
  /-- The value in double precision. -/
  toFloat : T → Float
  /-- The scalar nearest to a double precision number. -/
  ofFloat : Float → T
  sqrt : T → T

/-- The double precision number nearest to a fraction. -/
def doubleNearest (num den : Nat) : Float :=
  Float.ofBits (UInt64.ofNat (BinaryFormat.binary64.nearest num den))

/-- The single precision number of a constant, which is first rounded to double precision. -/
def singleOfConstant (num den : Nat) : Float32 :=
  Float32.ofBits (UInt32.ofNat
    (BinaryFormat.binary64.convert .binary32 (BinaryFormat.binary64.nearest num den)))

/-- Rational numbers, an ordered field: nothing is rounded, and every value is finite. -/
instance : Scalar Rat where
  toZero := ⟨0⟩
  toOne := ⟨1⟩
  toAdd := ⟨Rat.add⟩
  toSub := ⟨Rat.sub⟩
  toMul := ⟨Rat.mul⟩
  toDiv := ⟨Rat.div⟩
  toNeg := ⟨Rat.neg⟩
  abs a := if a < 0 then -a else a
  le a b := decide (a ≤ b)
  eq a b := decide (a = b)
  isNaN _ := false
  isFinite _ := true
  ofNat n := n
  ofRatio num den := mkRat num den

instance : BinaryScalar Float where
  toZero := ⟨0.0⟩
  toOne := ⟨1.0⟩
  toAdd := ⟨Float.add⟩
  toSub := ⟨Float.sub⟩
  toMul := ⟨Float.mul⟩
  toDiv := ⟨Float.div⟩
  toNeg := ⟨Float.neg⟩
  abs := Float.abs
  le a b := decide (a ≤ b)
  eq a b := a == b
  isNaN := Float.isNaN
  isFinite := Float.isFinite
  ofNat n := doubleNearest n 1
  ofRatio := doubleNearest
  format := .binary64
  toBits x := x.toBits.toNat
  ofBits n := Float.ofBits (UInt64.ofNat n)
  toFloat x := x
  ofFloat x := x
  sqrt := Float.sqrt

instance : BinaryScalar Float32 where
  toZero := ⟨0.0⟩
  toOne := ⟨1.0⟩
  toAdd := ⟨Float32.add⟩
  toSub := ⟨Float32.sub⟩
  toMul := ⟨Float32.mul⟩
  toDiv := ⟨Float32.div⟩
  toNeg := ⟨Float32.neg⟩
  abs := Float32.abs
  le a b := decide (a ≤ b)
  eq a b := a == b
  isNaN := Float32.isNaN
  isFinite := Float32.isFinite
  ofNat n := Float32.ofBits (UInt32.ofNat (BinaryFormat.binary32.nearest n 1))
  ofRatio := singleOfConstant
  format := .binary32
  toBits x := x.toBits.toNat
  ofBits n := Float32.ofBits (UInt32.ofNat n)
  toFloat := Float32.toFloat
  ofFloat := Float.toFloat32
  sqrt := Float32.sqrt

end QpReferee

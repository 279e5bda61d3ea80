import QpReferee.Decimal.Binary

/-!
# Decimal numbers

A decimal number is `digits · 10 ^ exponent`. It is rounded into a binary format exactly, and a
number far outside the format's range is recognised by its leading digit, so that no exponent of a
text makes the arithmetic large.

* `Decimal.magnitude` : the nearest magnitude of a format.
* `digitCount`, `digitsOf` : the decimal digits of a natural number.
* `fromDigits` : the natural number that some digits write.
-/

namespace QpReferee

/-- How many decimal digits a natural number has; zero has none. -/
def digitCount (n : Nat) : Nat :=
  if h : n = 0 then 0 else digitCount (n / 10) + 1
termination_by n
decreasing_by omega

/-- The decimal digit of a number below ten. -/
def digitChar (d : Nat) : Char := Char.ofNat (48 + d)

/-- The last `count` decimal digits of a number, leading zeros included, in front of `tail`. -/
def digitsOf (count n : Nat) (tail : List Char) : List Char :=
  match count with
  | 0 => tail
  | count + 1 => digitsOf count (n / 10) (digitChar (n % 10) :: tail)

/-- A natural number in decimal, without leading zeros. -/
def decimalText (n : Nat) : List Char := digitsOf (max 1 (digitCount n)) n []

/-- Digits in a base, the last first, joined in pairs to digits in the square of the base. -/
def pairDigits (base : Nat) : List Nat → List Nat
  | a :: b :: rest => (a + base * b) :: pairDigits base rest
  | rest => rest

theorem length_pairDigits_le (base : Nat) (digits : List Nat) :
    (pairDigits base digits).length ≤ digits.length := by
  fun_induction pairDigits base digits with
  | case1 a b rest ih =>
    simp only [List.length_cons]
    omega
  | case2 => exact Nat.le_refl _

/-- The number that digits in a base write, the last first. Joining neighbours keeps both factors of
each product of like size. -/
def fromDigits (base : Nat) : List Nat → Nat
  | [] => 0
  | [a] => a
  | a :: b :: rest => fromDigits (base * base) ((a + base * b) :: pairDigits base rest)
termination_by digits => digits.length
decreasing_by
  have := length_pairDigits_le base rest
  simp only [List.length_cons]
  omega

/-- The number `digits · 10 ^ exponent`. -/
structure Decimal where
  digits : Nat
  exponent : Int
  deriving DecidableEq, Repr

namespace Decimal

/-- One more than the exponent of the leading digit. -/
def lead (d : Decimal) : Int := digitCount d.digits + d.exponent

/-- The number as a numerator and a denominator. -/
def fraction (d : Decimal) : Nat × Nat :=
  (d.digits * Nat.pow 10 d.exponent.toNat, Nat.pow 10 (-d.exponent).toNat)

/-- The magnitude of `f` nearest to a decimal number that is below `10 ^ lead`, and not below
`10 ^ (lead - 1)` unless it is zero. With `w` the number of patterns of the exponent field, every
number of at least `10 ^ w` is infinite in `f`, and every number below `10 ^ (-w)` is zero. -/
def magnitudeAt (f : BinaryFormat) (lead : Int) (d : Decimal) : Nat :=
  if d.digits = 0 ∨ lead < -(Nat.pow 2 f.exponentBits : Int) then 0
  else if (Nat.pow 2 f.exponentBits : Int) < lead then f.infinity
  else f.nearest d.fraction.1 d.fraction.2

/-- The magnitude of `f` nearest to a decimal number. -/
def magnitude (f : BinaryFormat) (d : Decimal) : Nat := magnitudeAt f d.lead d

/-- The same number with the zeros at the end of its digits moved into the exponent. -/
def stripZeros (d : Decimal) : Decimal :=
  if h : d.digits ≠ 0 ∧ d.digits % 10 = 0 then stripZeros ⟨d.digits / 10, d.exponent + 1⟩ else d
termination_by d.digits
decreasing_by omega

end Decimal

end QpReferee

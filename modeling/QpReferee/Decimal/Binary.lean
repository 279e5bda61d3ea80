/-!
# Binary interchange formats

A binary floating point format is given by the widths of its two fields. A magnitude is its bit
pattern without the sign; patterns are ordered as the numbers are, so rounding and decoding are
plain arithmetic on natural numbers.

* `BinaryFormat.units` : the exact value of a finite magnitude, a whole number of smallest spacings.
* `BinaryFormat.nearest` : the magnitude nearest to a fraction, ties to the even neighbour,
  infinity past the largest finite number.
* `BinaryFormat.convert` : a magnitude rounded into another format.
-/

namespace QpReferee

/-- The widths of the fraction and exponent fields of a binary floating point format. -/
structure BinaryFormat where
  fractionBits : Nat
  exponentBits : Nat
  deriving DecidableEq, Repr

namespace BinaryFormat

def binary64 : BinaryFormat := ⟨52, 11⟩

def binary32 : BinaryFormat := ⟨23, 8⟩

/-- The magnitude of infinity; greater patterns are NaN. -/
def infinity (f : BinaryFormat) : Nat :=
  (Nat.pow 2 f.exponentBits - 1) * Nat.pow 2 f.fractionBits

/-- The bit that marks a negative number. -/
def signBit (f : BinaryFormat) : Nat := Nat.pow 2 (f.fractionBits + f.exponentBits)

/-- The spacing of the smallest numbers is `2 ^ (- smallest)`. -/
def smallest (f : BinaryFormat) : Nat := Nat.pow 2 (f.exponentBits - 1) - 2 + f.fractionBits

/-- The significand of a finite magnitude. -/
def significand (f : BinaryFormat) (magnitude : Nat) : Nat :=
  if magnitude / Nat.pow 2 f.fractionBits = 0 then magnitude
  else magnitude % Nat.pow 2 f.fractionBits + Nat.pow 2 f.fractionBits

/-- The exponent of a finite magnitude, counted from the smallest one. -/
def level (f : BinaryFormat) (magnitude : Nat) : Nat := magnitude / Nat.pow 2 f.fractionBits - 1

/-- The exact value of a finite magnitude, counted in the smallest spacing. -/
def units (f : BinaryFormat) (magnitude : Nat) : Nat :=
  f.significand magnitude * Nat.pow 2 (f.level magnitude)

/-- The natural number nearest to `num / den`, ties to the even neighbour. -/
def roundHalfEven (num den : Nat) : Nat :=
  let q := num / den
  let r := num % den
  if 2 * r < den then q
  else if den < 2 * r then q + 1
  else if q % 2 = 0 then q else q + 1

/-- The magnitude nearest to `num / den`. The spacing `2 ^ level` (counted from the smallest
spacing) is chosen so that the rounded significand has the format's full width, or is the smallest
spacing where the number is too small for that. -/
def nearest (f : BinaryFormat) (num den : Nat) : Nat :=
  let scaled := num * Nat.pow 2 f.smallest
  let level := (scaled / den).log2 - f.fractionBits
  min f.infinity (level * Nat.pow 2 f.fractionBits + roundHalfEven scaled (den * Nat.pow 2 level))

/-- The magnitude of the format `g` that is nearest to a magnitude, not NaN, of this one. -/
def convert (f g : BinaryFormat) (magnitude : Nat) : Nat :=
  if magnitude = f.infinity then g.infinity
  else g.nearest (f.units magnitude) (Nat.pow 2 f.smallest)

end BinaryFormat

end QpReferee

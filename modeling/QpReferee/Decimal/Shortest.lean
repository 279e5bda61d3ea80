import QpReferee.Decimal.Basic

/-!
# The shortest decimal of a binary number

Among the decimal numbers that round back to a given magnitude, `shortest` takes one with the
fewest digits, and of those the nearest to the exact value. A grid of decimals with a fixed number
of digits has a point that rounds back only if one of the two grid points around the value does, so
each grid is tried at these two.

* `Grid.pick` : the better of the two grid points, if one rounds back.
* `shortest` : the first grid that has one; the exact value stands in where no grid up to the
  format's width has, so that the result rounds back in every case.
-/

namespace QpReferee

/-- Which neighbour is taken when a value lies halfway between two decimals. -/
inductive Tie where
  | toEven
  | upward
  deriving DecidableEq, Repr

/-- The powers of ten at a scale, with the value `num / den` measured in them. -/
structure Grid where
  num : Nat
  den : Nat
  scale : Int

namespace Grid

/-- The value `num / den` on the grid of multiples of `10 ^ scale`. -/
def around (num den : Nat) (scale : Int) : Grid :=
  ⟨num * Nat.pow 10 (-scale).toNat, den * Nat.pow 10 scale.toNat, scale⟩

/-- The grid point at or below the value. -/
def below (g : Grid) : Decimal := ⟨g.num / g.den, g.scale⟩

def above (g : Grid) : Decimal := ⟨g.num / g.den + 1, g.scale⟩

/-- Is the point below the value preferred to the one above? -/
def prefersBelow (tie : Tie) (g : Grid) : Bool :=
  let r := g.num % g.den
  if 2 * r < g.den then true
  else if g.den < 2 * r then false
  else match tie with
    | .toEven => g.num / g.den % 2 = 0
    | .upward => false

/-- The better of the two grid points around the value, of those that round back to `magnitude`. -/
def pick (f : BinaryFormat) (tie : Tie) (magnitude : Nat) (g : Grid) : Option Decimal :=
  let candidates := if g.prefersBelow tie then [g.below, g.above] else [g.above, g.below]
  candidates.find? fun d => d.magnitude f == magnitude

end Grid

/-- The exponent of the leading decimal digit of a positive fraction. -/
def leadingExponent (num den : Nat) : Int :=
  if den ≤ num then (digitCount (num / den) : Int) - 1
  else -(digitCount ((den + num - 1) / num - 1) : Int)

/-- The exact value of a magnitude in decimal: a power of two in a denominator is a power of ten
over a power of five. -/
def exactDecimal (f : BinaryFormat) (magnitude : Nat) : Decimal :=
  ⟨f.units magnitude * Nat.pow 5 f.smallest, -(f.smallest : Int)⟩

/-- A decimal with the fewest digits that rounds back to a finite magnitude other than zero, the
nearest to it of those. No binary format of `p` bits needs more than `p` digits. -/
def shortest (f : BinaryFormat) (tie : Tie) (magnitude : Nat) : Decimal :=
  let num := f.units magnitude
  let den := Nat.pow 2 f.smallest
  let lead := leadingExponent num den
  let found := (List.range (f.fractionBits + 1)).findSome? fun (more : Nat) =>
    (Grid.around num den (lead - more)).pick f tie magnitude
  (found.getD (exactDecimal f magnitude)).stripZeros

end QpReferee

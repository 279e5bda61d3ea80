import QpReferee.Decimal.Shortest

/-!
# Written forms of numbers

A style says how the shortest decimal of a binary number is laid out. The digits are those of
`shortest`; the style decides where the point stands and how the special values are spelled.

* `NumberStyle.write` : the text of a number given by its sign and magnitude.
-/

namespace QpReferee

/-- The decisions of a written form of numbers. -/
structure NumberStyle where
  /-- Which way the shortest digits go on a tie. -/
  tie : Tie
  /-- Is a number whose leading digit has this exponent written without an exponent? -/
  positional : BinaryFormat → Int → Bool
  /-- Is a positive exponent written with its sign? -/
  plus : Bool
  /-- The spelling of infinity, by its sign. -/
  infinity : Bool → String
  /-- The spelling of a value that is no number. -/
  nan : String

namespace NumberStyle

/-- `digits · 10 ^ exponent` without an exponent, always with a fraction. -/
def positionalText (d : Decimal) : List Char :=
  let count := digitCount d.digits
  if 0 ≤ d.exponent then
    decimalText (d.digits * Nat.pow 10 d.exponent.toNat) ++ ['.', '0']
  else
    let places := (-d.exponent).toNat
    if places < count then
      digitsOf (count - places) (d.digits / Nat.pow 10 places) ('.' :: digitsOf places d.digits [])
    else
      '0' :: '.' :: digitsOf places d.digits []

/-- `digits · 10 ^ exponent` with one digit before the point, and a point only before more digits. -/
def exponentText (plus : Bool) (d : Decimal) : List Char :=
  let count := digitCount d.digits
  let exponent := d.lead - 1
  let sign := if exponent < 0 then ['-'] else if plus then ['+'] else []
  let fraction := if count ≤ 1 then [] else '.' :: digitsOf (count - 1) d.digits []
  digitsOf 1 (d.digits / Nat.pow 10 (count - 1)) fraction ++ 'e' :: sign ++ decimalText exponent.natAbs

def writeFinite (style : NumberStyle) (f : BinaryFormat) (magnitude : Nat) : List Char :=
  if magnitude = 0 then
    if style.positional f 0 then ['0', '.', '0'] else ['0', 'e', '0']
  else
    let d := shortest f style.tie magnitude
    if style.positional f (d.lead - 1) then positionalText d else exponentText style.plus d

/-- The text of the number with the given bits. -/
def write (style : NumberStyle) (f : BinaryFormat) (bits : Nat) : List Char :=
  let negative := f.signBit ≤ bits
  let magnitude := bits % f.signBit
  if f.infinity < magnitude then style.nan.toList
  else if magnitude = f.infinity then (style.infinity negative).toList
  else if negative then '-' :: style.writeFinite f magnitude
  else style.writeFinite f magnitude

end NumberStyle

end QpReferee

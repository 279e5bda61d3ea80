import QpReferee.Decimal.Basic
import QpReferee.Scalar

/-!
# Durations

A duration is a number of nanoseconds. It is written in the largest unit that leaves a whole part,
exactly and without zeros at the end.

* `Duration.text` : the written form.
* `Duration.seconds` : the number of seconds in double precision.
-/

namespace QpReferee

/-- A number of nanoseconds. -/
structure Duration where
  nanoseconds : Nat
  deriving DecidableEq, Repr

namespace Duration

def zero : Duration := ⟨0⟩

instance : Add Duration := ⟨fun a b => ⟨a.nanoseconds + b.nanoseconds⟩⟩

def sum (durations : List Duration) : Duration := durations.foldl (· + ·) zero

/-- The number of seconds. Whole seconds and the rest are rounded each for itself. -/
def seconds (d : Duration) : Float :=
  Scalar.ofNat (d.nanoseconds / Nat.pow 10 9) +
    Scalar.ofNat (d.nanoseconds % Nat.pow 10 9) / Scalar.ofNat (Nat.pow 10 9)

/-- A unit of time: the number of decimal places that a nanosecond takes in it, and its sign. -/
structure Scale where
  places : Nat
  sign : String

def scales : List Scale := [⟨9, "s"⟩, ⟨6, "ms"⟩, ⟨3, "µs"⟩, ⟨0, "ns"⟩]

/-- The places after the point, without zeros at the end, and the point if any are left. -/
def fractionText (places n : Nat) : List Char :=
  let digits := (digitsOf places (n % Nat.pow 10 places) []).reverse.dropWhile (· == '0') |>.reverse
  if digits.isEmpty then [] else '.' :: digits

/-- The text of a duration in one unit. -/
def textIn (n : Nat) (scale : Scale) : String :=
  String.ofList (decimalText (n / Nat.pow 10 scale.places) ++ fractionText scale.places n) ++ scale.sign

def text (d : Duration) : String :=
  let scale := scales.find? fun scale => Nat.pow 10 scale.places ≤ d.nanoseconds
  textIn d.nanoseconds (scale.getD ⟨0, "ns"⟩)

end Duration

end QpReferee

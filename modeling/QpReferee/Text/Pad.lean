import QpReferee.Fault

/-!
# Padded text

A field of a table has a least width, in characters, and an alignment; a precision cuts its text
first. Both are numbers of two bytes.

* `Field.pad` : a text cut and padded. In the centre, an odd character goes to the right.
* `Field.fit` : the same, but a field that is too large stops it.
-/

namespace QpReferee

/-- Where a text stands in its field. -/
inductive Align where
  | left
  | centre
  | right
  deriving DecidableEq, Repr

/-- The layout of a field. -/
structure Field where
  align : Align
  fill : Char
  width : Nat
  precision : Option Nat
  deriving Repr

namespace Field

/-- The characters of a text that a precision leaves. -/
def cut (precision : Option Nat) (text : List Char) : List Char :=
  match precision with
  | some count => text.take count
  | none => text

/-- The number of fill characters before and after a text with this many missing. -/
def margins (align : Align) (missing : Nat) : Nat × Nat :=
  match align with
  | .left => (0, missing)
  | .centre => (missing / 2, missing - missing / 2)
  | .right => (missing, 0)

def pad (field : Field) (text : String) : String :=
  let chars := cut field.precision text.toList
  let (before, after) := margins field.align (field.width - chars.length)
  String.ofList (List.replicate before field.fill ++ chars ++ List.replicate after field.fill)

/-- No width or precision reaches this. -/
def sizeRange : Nat := Nat.pow 2 16

/-- The text of a field. A width or precision out of range stops it, however short the text is. -/
def fit (field : Field) (text : String) : Checked String := do
  demand (field.width < sizeRange) .overflow
  demand (field.precision.getD 0 < sizeRange) .overflow
  return field.pad text

end Field

end QpReferee

import QpReferee.Decimal.Style
import QpReferee.Scalar

/-!
# Writing JSON text

Values are written without blanks, and the members of an object in the order in which they are
given. Names and keys are plain, so nothing in them has to be escaped.

* `jsonStyle` : how numbers are written; what is no finite number is `null`.
-/

namespace QpReferee.JsonText

/-- Numbers are positional near one and have an exponent elsewhere; a half goes to the even digit. -/
def jsonStyle : NumberStyle where
  tie := .toEven
  positional f exponent :=
    if f = .binary64 then -5 ≤ exponent ∧ exponent ≤ 15 else -6 ≤ exponent ∧ exponent ≤ 12
  plus := true
  infinity _ := "null"
  nan := "null"

/-- The text of a value that may be missing. -/
def writeOptional {α : Type} (write : α → List Char) : Option α → List Char
  | none => ['n', 'u', 'l', 'l']
  | some a => write a

def writeBool : Bool → List Char
  | true => ['t', 'r', 'u', 'e']
  | false => ['f', 'a', 'l', 's', 'e']

def writeNumber {T : Type} [BinaryScalar T] (x : T) : List Char :=
  jsonStyle.write (BinaryScalar.format T) (BinaryScalar.toBits x)

def writePlain (text : String) : List Char := '"' :: text.toList ++ ['"']

def joinComma : List (List Char) → List Char
  | [] => []
  | [a] => a
  | a :: b :: rest => a ++ ',' :: joinComma (b :: rest)

def writeList {α : Type} (write : α → List Char) (items : List α) : List Char :=
  '[' :: joinComma (items.map write) ++ [']']

/-- The text of an object with plain keys. -/
def writeObject (members : List (String × List Char)) : List Char :=
  '{' :: joinComma (members.map fun (key, value) => writePlain key ++ ':' :: value) ++ ['}']

end QpReferee.JsonText

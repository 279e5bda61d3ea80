import QpReferee.JsonText.Value
import QpReferee.JsonText.Write
import QpReferee.Problem
import QpReferee.Status.Basic

/-!
# Named values as JSON

Statuses, tiers and policies are written as their names. A block of rows is an object with the title
of its kind for its only key and its size for the value.

* `readNamed`, `writeNamed` : values that are nothing but a name.
* `Block.read`, `Block.toJson` : blocks of rows.
-/

namespace QpReferee

open JsonText

/-- Read a value that is written as its name, as a whole text. -/
def readNamed {α : Type} (all : List α) (name : α → String) (text : String) : Except Error α :=
  readAll (readVariant (Alternatives.ofNames all name)) text.toList

/-- The text of a value that is written as its name. -/
def writeNamed {α : Type} (name : α → String) (a : α) : String := String.ofList (writePlain (name a))

def RowKind.title : RowKind → String
  | .equality => "Equality"
  | .inequality => "Inequality"

def Block.alternatives : Alternatives RowKind Block where
  named text := [RowKind.equality, .inequality].find? fun kind => kind.title.toList == text
  bare _ := none
  content kind s :=
    match readNatural s with
    | .error e => .error e
    | .ok (size, rest) => .ok (⟨kind, size⟩, rest)

def Block.read (text : String) : Except Error Block :=
  readAll (readVariant Block.alternatives) text.toList

def Block.toJson (block : Block) : String :=
  String.ofList (writeObject [(block.kind.title, decimalText block.size)])

end QpReferee

import QpReferee.JsonText.Write
import QpReferee.Status.Basic

/-!
# Records

The outcome of one call: either the engine failed, and the record is a solver error with nothing
else, or it completed, and the record says what it found and how long it took.

* `Record.toJson` : the record as a JSON document.
-/

namespace QpReferee

/-- The outcome of one call. -/
structure Record (T : Type) where
  status : Status
  objective : Option T
  x : Option (List T)
  y : Option (List T)
  /-- The run time, in seconds. -/
  runTime : Option Float
  iterations : Option Nat
  deriving Repr

namespace Record

variable {T : Type}

/-- The record of a call whose engine failed. -/
def failed : Record T := ⟨.solverError, none, none, none, none, none⟩

open JsonText in
/-- The members of the record's document. -/
def members [BinaryScalar T] (r : Record T) : List (String × List Char) :=
  [("status", writePlain r.status.name),
    ("obj_val", writeOptional writeNumber r.objective),
    ("x", writeOptional (writeList writeNumber) r.x),
    ("y", writeOptional (writeList writeNumber) r.y),
    ("run_time", writeOptional writeNumber r.runTime),
    ("niter", writeOptional decimalText r.iterations)]

def toJson [BinaryScalar T] (r : Record T) : String :=
  String.ofList (JsonText.writeObject r.members)

end Record

end QpReferee

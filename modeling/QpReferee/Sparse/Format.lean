import QpReferee.Sparse.Basic

/-!
# The format of a matrix

A matrix is well formed if its pointers split the entries into columns, if the rows of each column
are strictly increasing, and if every row lies inside the matrix.

* `Csc.checkFormat` : the first rule that is broken, in a fixed order.
-/

namespace QpReferee

/-- How the fields of a matrix fail to describe one. -/
inductive FormatError where
  | incompatibleDimension
  | badRowOrdering
  | badRowIndex
  | badColumnPointer
  deriving DecidableEq, Repr

def FormatError.message : FormatError → String
  | .incompatibleDimension => "Matrix dimension fields and/or array lengths are incompatible"
  | .badRowOrdering => "Data is not sorted by row index within each column"
  | .badRowIndex => "Row value exceeds the matrix row dimension"
  | .badColumnPointer => "Bad column pointer values"

/-- Does the relation hold between all neighbours of a list? -/
def neighbours {α : Type} (related : α → α → Bool) : List α → Bool
  | a :: b :: rest => related a b && neighbours related (b :: rest)
  | _ => true

namespace Csc

variable {T : Type}

/-- Do the sizes of the arrays agree with each other, with the number of columns and with the last
pointer? -/
def sizesAgree (A : Csc T) : Checked Bool := do
  if A.rowIdx.size ≠ A.values.size then return false
  let pointers ← checkedAdd A.cols 1
  if A.colPtr.size ≠ pointers then return false
  return (← A.entryCount) == A.rowIdx.size

/-- Check the format of a matrix; the first broken rule is reported. -/
def checkFormat (A : Csc T) : Checked (Except FormatError Unit) := do
  unless ← A.sizesAgree do return .error .incompatibleDimension
  unless neighbours (· ≤ ·) A.colPtr.toList do return .error .badColumnPointer
  let sorted ← A.allColumns fun j => do return neighbours (· < ·) (← A.rowsOf j)
  unless sorted do return .error .badRowOrdering
  unless A.rowIdx.all (· < A.rows) do return .error .badRowIndex
  return .ok ()

end Csc

end QpReferee

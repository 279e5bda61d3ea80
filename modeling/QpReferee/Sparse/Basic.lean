import QpReferee.Fault
import QpReferee.Scalar

/-!
# Compressed sparse columns

Column `j` of a matrix holds the entries at positions `colPtr[j] ..< colPtr[j+1]` of the two arrays
`rowIdx` and `values`. The fields are free: `checkFormat` (in `Format`) says which contents make a
matrix, and every access here stops when it leaves an array.

* `Csc.column` : the entries of one column, as pairs of a row and a value.
* `Csc.build`, `Csc.zeros`, `Csc.identity`, `Csc.ofDense` : the constructors.
* `Csc.isUpper` : no stored entry lies below the diagonal.
-/

namespace QpReferee

/-- A matrix by compressed sparse columns. -/
structure Csc (T : Type) where
  rows : Nat
  cols : Nat
  colPtr : Array Nat
  rowIdx : Array Nat
  values : Array T
  deriving Repr

def itemAt {α : Type} (xs : Array α) (i : Nat) : Checked α :=
  match xs[i]? with
  | some a => .ok a
  | none => .error .range

/-- The items at positions `lo ..< hi`. -/
def slice {α : Type} (xs : Array α) (lo hi : Nat) : Checked (List α) :=
  if lo ≤ hi ∧ hi ≤ xs.size then .ok (xs.extract lo hi).toList else .error .range

namespace Csc

variable {T : Type}

def bounds (A : Csc T) (j : Nat) : Checked (Nat × Nat) := do
  let lo ← itemAt A.colPtr j
  let hi ← itemAt A.colPtr (j + 1)
  return (lo, hi)

def rowsOf (A : Csc T) (j : Nat) : Checked (List Nat) := do
  let (lo, hi) ← A.bounds j
  slice A.rowIdx lo hi

def column (A : Csc T) (j : Nat) : Checked (List (Nat × T)) := do
  let (lo, hi) ← A.bounds j
  let rows ← slice A.rowIdx lo hi
  let values ← slice A.values lo hi
  return rows.zip values

/-- The number of stored entries, as the last column pointer gives it. -/
def entryCount (A : Csc T) : Checked Nat := itemAt A.colPtr A.cols

/-- A matrix from its fields, of which only the sizes are checked. -/
def build (rows cols : Nat) (colPtr rowIdx : Array Nat) (values : Array T) : Checked (Csc T) := do
  demand (rowIdx.size = values.size) .length
  let pointers ← checkedAdd cols 1
  demand (colPtr.size = pointers) .length
  let last ← itemAt colPtr cols
  demand (last = rowIdx.size) .length
  return ⟨rows, cols, colPtr, rowIdx, values⟩

/-- Stop unless a list of `n` words fits into memory. -/
def demandCapacity (n : Nat) : Checked Unit := demand (n < wordCapacity) .capacity

section

variable [Scalar T]

/-- A matrix with room for `count` entries: all of them stand in the last pointer, are zero and
belong to row zero. With no entries it is the zero matrix. -/
def zeros (rows cols count : Nat) : Checked (Csc T) := do
  let pointers ← checkedAdd cols 1
  demandCapacity pointers
  demandCapacity count
  build rows cols ((Array.replicate cols 0).push count) (Array.replicate count 0)
    (Array.replicate count 0)

def identity (n : Nat) : Checked (Csc T) := do
  let pointers ← checkedAdd n 1
  demandCapacity pointers
  build n n (Array.range (n + 1)) (Array.range n) (Array.replicate n 1)

/-- The entries other than zero of column `j` of a dense matrix given row by row. -/
def denseColumn (rows cols : Nat) (data : Array T) (j : Nat) : List (Nat × T) :=
  (List.range rows).filterMap fun i =>
    match data[i * cols + j]? with
    | some v => if Scalar.eq v 0 then none else some (i, v)
    | none => none

/-- The partial sums of a list, starting with `start`. -/
def runningTotals (start : Nat) : List Nat → List Nat
  | [] => [start]
  | n :: rest => start :: runningTotals (start + n) rest

/-- A matrix from the list of its columns. -/
def ofColumns (rows : Nat) (columns : List (List (Nat × T))) : Checked (Csc T) :=
  let entries := columns.flatten.toArray
  build rows columns.length (runningTotals 0 (columns.map List.length)).toArray
    (entries.map Prod.fst) (entries.map Prod.snd)

/-- A matrix from its entries row by row. Zeros of either sign are not stored. -/
def ofDense (rows cols : Nat) (data : Array T) : Checked (Csc T) := do
  let size ← checkedMul rows cols
  demand (data.size = size) .length
  let pointers ← checkedAdd cols 1
  demandCapacity pointers
  ofColumns rows ((List.range cols).map (denseColumn rows cols data))

def hasFiniteValues (A : Csc T) : Bool := A.values.all Scalar.isFinite

/-- Equality of all fields, with the scalars' own equality of values. -/
def same (A B : Csc T) : Bool :=
  A.rows == B.rows && A.cols == B.cols && A.colPtr == B.colPtr && A.rowIdx == B.rowIdx &&
    A.values.size == B.values.size && (A.values.zip B.values).all fun (a, b) => Scalar.eq a b

end

/-- Do the `count` columns from `j` on satisfy a test that may stop? The first that fails decides. -/
def allColumnsFrom (test : Nat → Checked Bool) (j : Nat) : Nat → Checked Bool
  | 0 => .ok true
  | count + 1 =>
    match test j with
    | .error e => .error e
    | .ok false => .ok false
    | .ok true => allColumnsFrom test (j + 1) count

/-- Does every column satisfy a test that may stop? -/
def allColumns (A : Csc T) (test : Nat → Checked Bool) : Checked Bool :=
  allColumnsFrom test 0 A.cols

/-- Is no stored entry below the diagonal? -/
def isUpper (A : Csc T) : Checked Bool :=
  A.allColumns fun j => do return (← A.rowsOf j).all (· ≤ j)

end Csc

end QpReferee

import QpReferee.Sparse.Basic

/-!
# Products with a matrix

The three products update a vector, `y ↦ a · M · x + b · y`, for a matrix `M`, its transpose, and the
symmetric matrix whose upper triangle is stored. With `b = 0` the old vector is dropped, not
multiplied.

* `Csc.gemv` : each column of the matrix is scattered into the result.
* `Csc.gemvT` : each column is gathered into one entry of the result.
* `Csc.symv` : each entry off the diagonal is scattered twice; `Csc.upperSymv` demands that only the
  upper triangle is stored.
-/

namespace QpReferee

variable {T : Type} [Scalar T]

/-- The vector `b · y`: zero if `b` is zero, and `y` itself if `b` is one. -/
def scaleOrReset (b : T) (y : List T) : List T :=
  if Scalar.eq b 0 then y.map fun _ => 0
  else if Scalar.eq b 1 then y
  else y.map (· * b)

def addAt (y : Array T) (i : Nat) (d : T) : Checked (Array T) :=
  if i < y.size then .ok (y.modify i (· + d)) else .error .range

namespace Csc

/-- Add `a` times column `j` times `xj`. -/
def scatterColumn (A : Csc T) (a : T) (y : Array T) (xj : T) (j : Nat) : Checked (Array T) := do
  let entries ← A.column j
  entries.foldlM (fun y (i, v) => addAt y i (a * v * xj)) y

def gemv (A : Csc T) (y x : List T) (a b : T) : Checked (List T) := do
  demand (x.length = A.cols) .length
  demand (y.length = A.rows) .length
  let y := scaleOrReset b y
  if Scalar.eq a 0 then return y
  let y ← x.zipIdx.foldlM (fun y (xj, j) => A.scatterColumn a y xj j) y.toArray
  return y.toList

/-- The product of column `j`, as a row, with `x`. -/
def gatherColumn (A : Csc T) (x : Array T) (j : Nat) : Checked T := do
  let entries ← A.column j
  entries.foldlM (fun acc (i, v) => do return acc + v * (← itemAt x i)) 0

def gemvT (A : Csc T) (y x : List T) (a b : T) : Checked (List T) := do
  demand (x.length = A.rows) .length
  demand (y.length = A.cols) .length
  let y := scaleOrReset b y
  if Scalar.eq a 0 then return y
  let x := x.toArray
  y.zipIdx.mapM fun (yj, j) => do return yj + a * (← A.gatherColumn x j)

/-- Add `a` times the stored entries of column `j`, each also at its transposed place. An entry on
the diagonal counts once. -/
def scatterBoth (A : Csc T) (a : T) (x y : Array T) (xj : T) (j : Nat) : Checked (Array T) := do
  let entries ← A.column j
  entries.foldlM (fun y (i, v) => do
    let y ← addAt y i (a * v * xj)
    if i = j then return y
    addAt y j (a * v * (← itemAt x i))) y

/-- The vector `a · S · x + b · y`, with `S` the symmetric matrix that holds each stored entry at its
own place and at the transposed one. -/
def symv (A : Csc T) (y x : List T) (a b : T) : Checked (List T) := do
  demand (A.rows = A.cols) .length
  demand (x.length = A.cols) .length
  demand (y.length = A.cols) .length
  let xs := x.toArray
  let y ← x.zipIdx.foldlM (fun y (xj, j) => A.scatterBoth a xs y xj j) (scaleOrReset b y).toArray
  return y.toList

/-- Demand that only the upper triangle is stored. -/
def demandUpper (A : Csc T) : Checked Unit := do
  unless ← A.isUpper do throw .triangle

/-- The product with the symmetric matrix whose upper triangle is stored. -/
def upperSymv (A : Csc T) (y x : List T) (a b : T) : Checked (List T) := do
  A.demandUpper
  A.symv y x a b

end Csc

end QpReferee

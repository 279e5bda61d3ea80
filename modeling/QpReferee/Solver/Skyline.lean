import QpReferee.Solver.Doubles

/-!
# Factors of symmetric matrices

To solve a symmetric system, its rows are put in some order, and of each row the part from its first
entry to the diagonal is kept: elimination fills nothing outside that skyline. The factors are a
triangle with a unit diagonal, the pivots, and the transposed triangle. They serve the method that stands
in for a solver (`Interior.solve`).

* `Skyline.ofEntries`, `Skyline.factor`, `Skyline.solve`.
-/

namespace QpReferee

/-- The part of a symmetric matrix at and below the diagonal, its rows in some order, each from its
first entry on. -/
structure Skyline where
  /-- The place of each index in the order. -/
  place : Array Nat
  /-- The first column of each row. -/
  first : Array Nat
  /-- Where each row starts among the values. -/
  start : Array Nat
  /-- Is the pivot of a row positive? -/
  positive : Array Bool
  values : Doubles

namespace Skyline

def firstColumns (place : Array Nat) (M : Entries) : Array Nat :=
  M.fold (fun first i j _ =>
    let i := place[i]!
    let j := place[j]!
    first.modify (max i j) (min (min i j))) (Array.range place.size)

/-- Where the rows start, and the number of all values. -/
def rowStarts (first : Array Nat) : Array Nat × Nat :=
  first.zipIdx.foldl (fun (starts, next) (f, i) => (starts.push next, next + (i - f + 1))) (#[], 0)

/-- A matrix from its entries and a vector that is added to its diagonal, and that has the signs which
the pivots are to have. -/
def ofEntries (place : Array Nat) (M : Entries) (diagonal : Doubles) : Skyline :=
  let first := firstColumns place M
  let (start, count) := rowStarts first
  let slot (i j : Nat) : Nat := start[i]! + (j - first[i]!)
  let values := M.fold (fun v i j a =>
    let i := place[i]!
    let j := place[j]!
    let k := slot (max i j) (min i j)
    v.set! k (v.get! k + a)) (Doubles.tabulate count fun _ => 0)
  let values := place.zipIdx.foldl (fun v (p, i) =>
    let k := slot p p
    v.set! k (v.get! k + diagonal.get! i)) values
  let positive := place.zipIdx.foldl (fun signs (p, i) => signs.set! p (0 ≤ diagonal.get! i))
    (Array.replicate place.size true)
  { place, first, start, positive, values }

/-- Subtract from the entries of a row what it has in common with the rows before it. -/
def reduceRow (first start : Array Nat) (i : Nat) : (count j : Nat) → Doubles → Doubles
  | 0, _, v => v
  | count + 1, j, v =>
    let k := max first[i]! first[j]!
    let slot := start[i]! + (j - first[i]!)
    let common := v.dotRange v (j - k) (start[i]! + (k - first[i]!)) (start[j]! + (k - first[j]!)) 0
    reduceRow first start i count (j + 1) (v.set! slot (v.get! slot - common))

/-- Divide the entries of a row by the pivots of the rows before it, and leave its own pivot. -/
def divideRow (first start : Array Nat) (i : Nat) : (count j : Nat) → Doubles → Doubles
  | 0, _, v => v
  | count + 1, j, v =>
    let slot := start[i]! + (j - first[i]!)
    let own := start[i]! + (i - first[i]!)
    let a := v.get! slot
    let factor := a / v.get! (start[j]! + (j - first[j]!))
    let pivot := v.get! own - a * factor
    divideRow first start i count (j + 1) ((v.set! slot factor).set! own pivot)

/-- The size that a pivot has to exceed. -/
def leastPivot : Float := 1e-13

/-- The size of what stands in for a pivot that is too small, or whose sign is wrong. -/
def substitutePivot : Float := 2e-7

def mendPivot (positive : Bool) (pivot : Float) : Float :=
  if positive then if pivot ≤ leastPivot then substitutePivot else pivot
  else if -leastPivot ≤ pivot then -substitutePivot else pivot

/-- The factors of a matrix, in place of its entries: below the diagonal those of the triangle, on the
diagonal the pivots. -/
def factor (K : Skyline) : Skyline :=
  { K with
    values := (List.range K.place.size).foldl (fun v i =>
      let f := K.first[i]!
      let own := K.start[i]! + (i - f)
      let v := divideRow K.first K.start i (i - f) f (reduceRow K.first K.start i (i - f) f v)
      v.set! own (mendPivot K.positive[i]! (v.get! own))) K.values }

/-- Solve with the triangle, from the first row on. -/
def solveLower (L : Skyline) (x : Doubles) : Doubles :=
  (List.range L.place.size).foldl (fun x i =>
    let f := L.first[i]!
    x.set! i (x.get! i - L.values.dotRange x (i - f) L.start[i]! f 0)) x

/-- Solve with the transposed triangle, from the last of `count` rows on. -/
def solveUpper (L : Skyline) : (count : Nat) → Doubles → Doubles
  | 0, x => x
  | i + 1, x =>
    let f := L.first[i]!
    solveUpper L i (Doubles.addRange L.values (-x.get! i) (i - f) L.start[i]! f x)

/-- Solve a system, given the factors of its matrix. -/
def solve (L : Skyline) (right : Doubles) : Doubles :=
  let size := L.place.size
  let x := L.place.zipIdx.foldl (fun x (p, i) => x.set! p (right.get! i))
    (Doubles.tabulate size fun _ => 0)
  let x := L.solveLower x
  let x := Doubles.tabulate size fun i =>
    x.get! i / L.values.get! (L.start[i]! + (i - L.first[i]!))
  let x := L.solveUpper size x
  Doubles.tabulate size fun i => x.get! L.place[i]!

end Skyline

end QpReferee

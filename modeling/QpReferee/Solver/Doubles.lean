/-!
# Vectors and symmetric matrices in double precision

A symmetric matrix is a list of entries, each of which stands on both sides of the diagonal. These are the
numbers of the method that stands in for a solver (`Interior.solve`); problems and their check have their own.

* `Doubles.tabulate`, `Doubles.dot`, `Doubles.norm`.
* `Entries.addProduct`, `Entries.rowNorms`.
-/

namespace QpReferee

/-! ## Vectors -/

/-- Vectors of double precision numbers. -/
abbrev Doubles := FloatArray

namespace Doubles

@[specialize] def tabulate (size : Nat) (entry : Nat → Float) : Doubles :=
  go size 0 (FloatArray.emptyWithCapacity size)
where
  /-- Add `count` entries from the `i`-th on. -/
  @[specialize] go : (count i : Nat) → Doubles → Doubles
    | 0, _, v => v
    | count + 1, i, v => go count (i + 1) (v.push (entry i))

@[specialize] def sum (count : Nat) (term : Nat → Float) : Float :=
  go count 0 0
where
  /-- Add `count` terms from the `i`-th on. -/
  @[specialize] go : (count i : Nat) → Float → Float
    | 0, _, s => s
    | count + 1, i, s => go count (i + 1) (s + term i)

/-- The product of `count` entries of a vector from `i` on with those from `j` on of another. -/
def dotRange (u : Doubles) (v : Doubles) : (count i j : Nat) → Float → Float
  | 0, _, _, s => s
  | count + 1, i, j, s => dotRange u v count (i + 1) (j + 1) (s + u.get! i * v.get! j)

/-- The sum of the products of the entries. -/
def dot (u v : Doubles) : Float := dotRange u v u.size 0 0 0

/-- The greatest size of so many numbers. One that is no number is greater than all others. -/
@[specialize] def greatest (count : Nat) (entry : Nat → Float) : Float :=
  go count 0 0
where
  /-- Go on with `count` numbers from the `i`-th on. -/
  @[specialize] go : (count i : Nat) → Float → Float
    | 0, _, s => s
    | count + 1, i, s =>
      let a := (entry i).abs
      go count (i + 1) (if s < a || a.isNaN then a else s)

def norm (v : Doubles) : Float := greatest v.size v.get!

/-- Add a multiple of `count` entries of a vector, from `i` on, to those from `j` on of another. -/
def addRange (u : Doubles) (factor : Float) : (count i j : Nat) → Doubles → Doubles
  | 0, _, _, v => v
  | count + 1, i, j, v =>
    addRange u factor count (i + 1) (j + 1) (v.set! j (v.get! j + factor * u.get! i))

end Doubles

/-! ## Entries -/

/-- Entries of a symmetric matrix. -/
structure Entries where
  rows : Array Nat
  cols : Array Nat
  values : Doubles

namespace Entries

def empty : Entries := ⟨#[], #[], .empty⟩

def push (M : Entries) (i j : Nat) (value : Float) : Entries :=
  ⟨M.rows.push i, M.cols.push j, M.values.push value⟩

@[specialize] def fold {α : Type} (M : Entries) (step : α → Nat → Nat → Float → α) (start : α) :
    α :=
  go M.values.size 0 start
where
  /-- Go on with `count` entries from the `k`-th on. -/
  @[specialize] go : (count k : Nat) → α → α
    | 0, _, a => a
    | count + 1, k, a => go count (k + 1) (step a M.rows[k]! M.cols[k]! (M.values.get! k))

@[specialize] def mapValues (M : Entries) (f : Nat → Nat → Float → Float) : Entries :=
  { M with values :=
      M.fold (fun v i j a => v.push (f i j a)) (FloatArray.emptyWithCapacity M.values.size) }

/-- Add the product with a vector to another one. -/
def addProduct (M : Entries) (x y : Doubles) : Doubles :=
  M.fold (fun y i j a =>
    let y := y.set! i (y.get! i + a * x.get! j)
    if i = j then y else y.set! j (y.get! j + a * x.get! i)) y

/-- The greatest size of an entry in each row. -/
def rowNorms (M : Entries) (size : Nat) : Doubles :=
  M.fold (fun y i j a =>
    let y := if a.abs ≤ y.get! i then y else y.set! i a.abs
    if a.abs ≤ y.get! j then y else y.set! j a.abs) (Doubles.tabulate size fun _ => 0)

end Entries

end QpReferee

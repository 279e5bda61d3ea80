import QpReferee.Fault
import QpReferee.Scalar

/-!
# Vector kernels

Vectors are lists. Every sum runs from the left and starts at zero; no operation is fused or
reassociated, so the kernels have one meaning in floating point and in exact arithmetic.

* `norm` : the largest absolute value; an entry that is no number is itself the norm.
* `dot`, `hadamardNorm`, `distance`, `combine` : demand equal lengths.
-/

namespace QpReferee.Vec

variable {T : Type} [Scalar T]

/-- The sum of the products of two vectors' entries. -/
def dot (x y : List T) : Checked T := do
  demand (x.length = y.length) .length
  return (x.zip y).foldl (fun acc (a, b) => acc + a * b) 0

/-- The largest absolute value, starting from `bound`. An entry that is no number ends the search,
so that it can never look small. -/
def normFrom (bound : T) : List T → T
  | [] => bound
  | v :: rest => if Scalar.isNaN v then v else normFrom (Scalar.max bound (Scalar.abs v)) rest

def norm (x : List T) : T := normFrom 0 x

def hadamard (x y : List T) : List T := x.zipWith (· * ·) y

/-- The infinity norm of the entries' products. -/
def hadamardNorm (x y : List T) : Checked T := do
  demand (x.length = y.length) .length
  return norm (hadamard x y)

def isFinite (x : List T) : Bool := x.all Scalar.isFinite

def combine (a : T) (x : List T) (b : T) (y : List T) : Checked (List T) := do
  demand (y.length = x.length) .length
  return x.zipWith (fun u v => a * u + b * v) y

def distance {T : Type} [BinaryScalar T] (x y : List T) : Checked T := do
  demand (x.length = y.length) .length
  return BinaryScalar.sqrt ((x.zip y).foldl (fun acc (a, b) => acc + (a - b) * (a - b)) 0)

end QpReferee.Vec

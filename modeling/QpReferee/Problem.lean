import QpReferee.Sparse.Format
import QpReferee.Sparse.Product
import QpReferee.Vec

/-!
# Quadratic programs

Minimize `½ xᵀPx + qᵀx` subject to `Ax = b` on equality rows and `Ax ≤ b` on inequality rows. Only
the upper triangle of `P` is stored, and the rows come in blocks of one kind.

* `Problem.make` : a problem from its data, or the first of ten conditions that the data break.
* `Problem.rowKinds` : the blocks expanded to one kind per row.
* `Problem.objective` : the value at a point.
-/

namespace QpReferee

/-- What a row demands of its slack `b - Ax`: to be zero, or not to be negative. -/
inductive RowKind where
  | equality
  | inequality
  deriving DecidableEq, Repr

/-- Consecutive rows of one kind. -/
structure Block where
  kind : RowKind
  size : Nat
  deriving DecidableEq, Repr

/-- The kinds of the rows of some blocks, in row order. -/
def expandBlocks (blocks : List Block) : List RowKind :=
  blocks.flatMap fun block => List.replicate block.size block.kind

def coveredRows : List Block → Checked Nat :=
  List.foldlM (fun total block => checkedAdd total block.size) 0

/-- The parts of a problem's data. -/
inductive Datum where
  | P | q | A | b
  deriving DecidableEq, Repr

def Datum.name : Datum → String
  | .P => "P"
  | .q => "q"
  | .A => "A"
  | .b => "b"

/-- Why data do not make a problem. -/
inductive ProblemError where
  | badFormat (error : FormatError)
  | incompatibleDimension (part : Datum)
  | notUpperTriangular
  | badConstraintBlocks (covered rows : Nat)
  | nonFinite (part : Datum)
  deriving DecidableEq, Repr

def ProblemError.message : ProblemError → String
  | .badFormat error => "Bad sparse matrix format: " ++ error.message
  | .incompatibleDimension part => "Incompatible dimensions for " ++ part.name
  | .notUpperTriangular => "P must be upper triangular"
  | .badConstraintBlocks covered rows =>
    "Constraint blocks cover " ++ toString covered ++ " rows but A has " ++ toString rows
  | .nonFinite part => "Non-finite entry in " ++ part.name

/-- The data of a quadratic program. `Problem.make` builds the ones that pass every check. -/
structure Problem (T : Type) where
  P : Csc T
  q : List T
  A : Csc T
  b : List T
  blocks : List Block

namespace Problem

variable {T : Type}

def unknowns (p : Problem T) : Nat := p.q.length

def rows (p : Problem T) : Nat := p.b.length

/-- The kind of each row, in row order. -/
def rowKinds (p : Problem T) : List RowKind := expandBlocks p.blocks

variable [Scalar T]

/-- The first condition that a problem's data break. -/
def firstError (p : Problem T) : Checked (Except ProblemError Unit) := do
  if let .error e ← p.P.checkFormat then return .error (.badFormat e)
  if let .error e ← p.A.checkFormat then return .error (.badFormat e)
  if p.P.rows ≠ p.unknowns ∨ p.P.cols ≠ p.unknowns then return .error (.incompatibleDimension .P)
  if p.A.rows ≠ p.rows ∨ p.A.cols ≠ p.unknowns then return .error (.incompatibleDimension .A)
  unless ← p.P.isUpper do return .error .notUpperTriangular
  let covered ← coveredRows p.blocks
  if covered ≠ p.rows then return .error (.badConstraintBlocks covered p.rows)
  unless p.P.hasFiniteValues do return .error (.nonFinite .P)
  unless Vec.isFinite p.q do return .error (.nonFinite .q)
  unless p.A.hasFiniteValues do return .error (.nonFinite .A)
  unless Vec.isFinite p.b do return .error (.nonFinite .b)
  return .ok ()

/-- The problem with the given data, if they satisfy every condition. -/
def make (P : Csc T) (q : List T) (A : Csc T) (b : List T) (blocks : List Block) :
    Checked (Except ProblemError (Problem T)) := do
  let p : Problem T := ⟨P, q, A, b, blocks⟩
  return (← p.firstError).map fun _ => p

def zeroVector (n : Nat) : List T := List.replicate n 0

/-- The product `Px` with the full symmetric matrix. -/
def curvature (p : Problem T) (x : List T) : Checked (List T) :=
  p.P.upperSymv (zeroVector p.unknowns) x 1 0

def objective (p : Problem T) (x : List T) : Checked T := do
  let Px ← p.curvature x
  return (1 / Scalar.ofNat 2) * (← Vec.dot x Px) + (← Vec.dot p.q x)

end Problem

end QpReferee

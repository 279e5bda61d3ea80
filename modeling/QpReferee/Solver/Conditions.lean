import QpReferee.Problem
import QpReferee.Solver.Doubles

/-!
# Optimality conditions

A program with `Ax + s = b`, where `s` is zero on equality rows and not negative on the others, has the
optimality conditions `Mw + s = g` for the vector `w` of its variables and multipliers: the matrix `M`
has `P` in its first corner and `A` beside it, and `g = (-q, b)`. A slack and its multiplier are not
negative, and one of them is zero. In this form a problem is handed to the method that stands in for
a solver (`Interior.solve`).

* `Conditions.ofProblem` : the conditions of a problem, without the rows that limit nothing.
* `Conditions.scaled` : equivalent conditions with numbers of about size one.
* `Conditions.places` : an order of elimination.
-/

namespace QpReferee

/-- The optimality conditions of a program. -/
structure Conditions where
  /-- The number of variables. -/
  unknowns : Nat
  /-- Is an index that of an inequality's multiplier? -/
  signed : Array Bool
  /-- The quadratic part. -/
  P : Entries
  /-- The constraints; their rows are numbered after the variables. -/
  A : Entries
  /-- The right side `(-q, b)`. -/
  g : Doubles

namespace Conditions

def size (c : Conditions) : Nat := c.signed.size

def matrix (c : Conditions) : Entries := c.A.fold Entries.push c.P

def costNorm (c : Conditions) : Float := Doubles.greatest c.unknowns c.g.get!

def boundNorm (c : Conditions) : Float :=
  Doubles.greatest (c.size - c.unknowns) fun i => c.g.get! (c.unknowns + i)

/-! ## From a problem -/

section

variable {T : Type} [BinaryScalar T]

/-- An upper bound of this size is none. -/
def unlimited : Float := doubleNearest (Nat.pow 10 20) 1

/-- Does a row limit anything, with the given bound? -/
def limits : RowKind → T → Bool
  | .equality, _ => true
  | .inequality, b => BinaryScalar.toFloat b < unlimited

/-- The rows of a problem that limit something. -/
def keptRows (p : Problem T) : List Nat :=
  ((p.rowKinds.zip p.b).zipIdx.filter fun ((kind, b), _) => limits kind b).map Prod.snd

/-- The entries of a matrix, its rows numbered anew; those without a number are left out. -/
def entriesOf (number : Nat → Option Nat) (A : Csc T) : Entries :=
  (List.range A.cols).foldl (fun M j =>
    ((A.column j).toOption.getD []).foldl (fun M (i, a) =>
      match number i with
      | some k => M.push k j (BinaryScalar.toFloat a)
      | none => M) M) .empty

/-- The conditions of a problem, of whose rows only some are kept. -/
def ofProblem (p : Problem T) (kept : List Nat) : Conditions :=
  let numbers := kept.zipIdx.foldl (fun numbers (row, i) => numbers.set! row (some (p.unknowns + i)))
    (Array.replicate p.rows none)
  let rows := (p.rowKinds.zip p.b).toArray
  let chosen := (kept.filterMap (rows[·]?)).toArray
  { unknowns := p.unknowns
    signed := Array.replicate p.unknowns false ++ chosen.map fun (kind, _) => kind == .inequality
    P := entriesOf some p.P
    A := entriesOf (fun i => (numbers[i]?).join) p.A
    g := ⟨(p.q.map fun a => -BinaryScalar.toFloat a).toArray ++
      chosen.map fun (_, b) => BinaryScalar.toFloat b⟩ }

end

/-! ## Scaling -/

/-- The conditions with rows and columns multiplied by some numbers. -/
def scaleBy (c : Conditions) (d : Doubles) : Conditions :=
  let scale (M : Entries) : Entries := M.mapValues fun i j a => a * d.get! i * d.get! j
  { c with P := scale c.P, A := scale c.A, g := .tabulate c.size fun i => c.g.get! i * d.get! i }

/-- The conditions with the objective multiplied by a number. -/
def scaleObjective (c : Conditions) (factor : Float) : Conditions :=
  { c with
    P := c.P.mapValues fun _ _ a => a * factor
    g := .tabulate c.size fun i => if i < c.unknowns then c.g.get! i * factor else c.g.get! i }

/-- Scaled conditions. What solves them solves the given ones if every entry of `w` is multiplied by
its scale and the multipliers are then divided by the scale of the objective. -/
structure Scaled where
  conditions : Conditions
  scales : Doubles
  objectiveScale : Float

/-- No scale exceeds this, and none is less than one over it. -/
def greatestScale : Float := 1e4

/-- One over a number, or one for zero, so that its product with a scale stays within the limits. -/
def inverseWithin (a scale : Float) : Float :=
  let inverse := if a == 0 then 1 else 1 / a
  if greatestScale < inverse * scale then greatestScale / scale
  else if inverse * scale * greatestScale < 1 then 1 / greatestScale / scale
  else inverse

/-- Divide every row and column by the root of its greatest entry, and then the objective by its
greatest cost or the mean size of its curvature, if it has both. -/
def Scaled.step (s : Scaled) : Scaled :=
  let c := s.conditions
  let norms := c.matrix.rowNorms c.size
  let d := Doubles.tabulate c.size fun i => inverseWithin (norms.get! i).sqrt (s.scales.get! i)
  let c := c.scaleBy d
  let scales := Doubles.tabulate c.size fun i => s.scales.get! i * d.get! i
  let costs := c.costNorm
  let norms := c.P.rowNorms c.size
  let curvature := Doubles.sum c.unknowns norms.get! / c.unknowns.toFloat
  if costs == 0 || curvature == 0 then ⟨c, scales, s.objectiveScale⟩
  else
    let factor := inverseWithin (if costs < curvature then curvature else costs) s.objectiveScale
    ⟨c.scaleObjective factor, scales, s.objectiveScale * factor⟩

/-- Scale some conditions, so many times. -/
def Scaled.iterate : Nat → Scaled → Scaled
  | 0, s => s
  | count + 1, s => iterate count s.step

/-- The conditions scaled until little changes. -/
def scaled (c : Conditions) : Scaled := .iterate 10 ⟨c, .tabulate c.size fun _ => 1, 1⟩

/-! ## Order -/

/-- The place of every index in an order of elimination: a row comes right after the last of its
variables. -/
def places (c : Conditions) : Array Nat :=
  let own := (Array.range c.size).map fun i => if i < c.unknowns then i else 0
  let last := c.A.fold (fun last i j _ => last.modify i (max j)) own
  let none := Array.replicate (c.unknowns + 1) 0
  let counts := last.foldl (fun counts j => counts.modify j (· + 1)) none
  let (starts, _) := counts.foldl (fun (starts, next) k => (starts.push next, next + k)) (#[], 0)
  (last.foldl (fun (places, next) j => (places.push next[j]!, next.modify j (· + 1)))
    (Array.emptyWithCapacity c.size, starts)).1

end Conditions

end QpReferee

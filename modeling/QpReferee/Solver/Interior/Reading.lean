import QpReferee.Solver.Conditions
import QpReferee.Status.Native

/-!
# Points of an interior point method

The optimality conditions `Mw + s = g` need not have a solution. With a factor `τ ≥ 0` for the right
side and a slack `κ ≥ 0` for the gap between the costs, `Mw + s = τg` always has one: either `τ > 0`,
and `w / τ` is an optimum, or `κ > 0`, and `w / κ` shows why there is none. The points and their
measures are those of the method that stands in for a solver, as are the tolerances.

* `Setting` : scaled conditions, with what is computed from them once.
* `Point.read`, `Reading.measure` : the errors at a point, and how large they are.
* `Measures.verdict` : what a point shows.
-/

namespace QpReferee.Interior

open Conic (Word)

/-! ## Points -/

/-- Scaled conditions, with what all steps need of them. -/
structure Setting where
  scaled : Conditions.Scaled
  conditions : Conditions
  matrix : Entries
  places : Array Nat
  /-- The vector `(q, b)`. -/
  costs : Doubles
  /-- The norms of the costs and the bounds before scaling. -/
  costNorm : Float
  boundNorm : Float

namespace Setting

def make (given : Conditions) : Setting :=
  let scaled := given.scaled
  let c := scaled.conditions
  { scaled
    conditions := c
    matrix := c.matrix
    places := c.places
    costs := .tabulate c.size fun i => if i < c.unknowns then -c.g.get! i else c.g.get! i
    costNorm := given.costNorm
    boundNorm := given.boundNorm }

def unknowns (e : Setting) : Nat := e.conditions.unknowns

def size (e : Setting) : Nat := e.conditions.size

/-- Is an index that of an inequality's multiplier? -/
@[inline] def isSigned (e : Setting) (i : Nat) : Bool := e.conditions.signed[i]!

def signedCount (e : Setting) : Nat := e.conditions.signed.count true

/-- A vector with zeros in place of the entries for the rows. -/
def variablesOf (e : Setting) (w : Doubles) : Doubles :=
  .tabulate e.size fun i => if i < e.unknowns then w.get! i else 0

/-- A vector with zeros in place of the entries for the variables. -/
def rowsOf (e : Setting) (w : Doubles) : Doubles :=
  .tabulate e.size fun i => if i < e.unknowns then 0 else w.get! i

/-- The product of the quadratic part with a vector. -/
def curvature (e : Setting) (w : Doubles) : Doubles :=
  e.conditions.P.addProduct w (.tabulate e.size fun _ => 0)

/-- The greatest size of the entries for the variables, each multiplied by a number. -/
@[specialize] def variableNorm (e : Setting) (factor : Float → Float) (v : Doubles) : Float :=
  Doubles.greatest e.unknowns fun i => v.get! i * factor (e.scaled.scales.get! i)

/-- The greatest size of the entries for the rows, each multiplied by a number. -/
@[specialize] def rowNorm (e : Setting) (factor : Float → Float) (v : Doubles) : Float :=
  Doubles.greatest (e.size - e.unknowns) fun i =>
    v.get! (e.unknowns + i) * factor (e.scaled.scales.get! (e.unknowns + i))

end Setting

/-- A point, or a direction. -/
structure Point where
  w : Doubles
  s : Doubles
  tau : Float
  kappa : Float

/-- A point and what has been computed from it. -/
structure Reading where
  point : Point
  /-- The error `Mw + s - τg`. -/
  errors : Doubles
  /-- The product of `P` with `w / τ`. -/
  curved : Doubles
  /-- The products of the costs with the variables and of the bounds with the multipliers. -/
  costOfVariables : Float
  costOfRows : Float
  /-- The curvature at the point, `xᵀPx / τ`. -/
  bend : Float
  /-- The mean product of a slack and its multiplier. -/
  mean : Float

variable (e : Setting)

def Point.read (p : Point) : Reading :=
  let curved := e.curvature (.tabulate e.size fun i => p.w.get! i / p.tau)
  let products := Doubles.sum e.size fun i => if e.isSigned i then p.s.get! i * p.w.get! i else 0
  { point := p
    errors := e.matrix.addProduct p.w
      (.tabulate e.size fun i => p.s.get! i - p.tau * e.conditions.g.get! i)
    curved
    costOfVariables := Doubles.sum e.unknowns fun i => e.costs.get! i * p.w.get! i
    costOfRows := Doubles.sum (e.size - e.unknowns) fun i =>
      e.costs.get! (e.unknowns + i) * p.w.get! (e.unknowns + i)
    bend := curved.dot p.w
    mean := (products + p.tau * p.kappa) / (e.signedCount + 1).toFloat }

def Reading.gapError (r : Reading) : Float :=
  r.costOfVariables + r.costOfRows + r.point.kappa + r.bend

/-! ## Judging a point -/

/-- What decides whether the search is over. All sizes are those of the given conditions. -/
structure Measures where
  costPrimal : Float
  /-- The gap between the costs, and its size relative to them. -/
  gap : Float
  gapRelative : Float
  /-- The errors in the rows and in the gradient, relative to the numbers they are computed from. -/
  primal : Float
  dual : Float
  /-- What is left of a certificate `w / κ` of either kind of infeasibility. -/
  primalCertificate : Float
  dualCertificate : Float
  /-- The gains of the certificates. -/
  gainOfRows : Float
  gainOfVariables : Float
  /-- The ratio of `κ` to `τ`. -/
  ratio : Float

def greater (a b : Float) : Float := if a < b then b else a

def Reading.measure (r : Reading) : Measures :=
  let p := r.point
  let objectiveScale := e.scaled.objectiveScale
  let inverse (a : Float) : Float := 1 / a
  let x := e.variableNorm id p.w
  let z := e.rowNorm id p.w / objectiveScale
  let s := e.rowNorm inverse p.s
  let costPrimal := (r.costOfVariables + r.bend / 2) / p.tau / objectiveScale
  let costDual := (-r.costOfRows - r.bend / 2) / p.tau / objectiveScale
  let gap := (costPrimal - costDual).abs
  let smaller := if costPrimal.abs < costDual.abs then costPrimal.abs else costDual.abs
  let pulled := e.matrix.addProduct (e.rowsOf p.w) (.tabulate e.size fun _ => 0)
  let pushed := e.matrix.addProduct (e.variablesOf p.w) p.s
  { costPrimal, gap
    gapRelative := gap / greater 1 smaller
    primal := e.rowNorm inverse r.errors / p.tau / greater 1 (e.boundNorm + (x + s) / p.tau)
    dual := e.variableNorm inverse r.errors / p.tau / objectiveScale /
      greater 1 (e.costNorm + (x + z) / p.tau)
    primalCertificate :=
      e.variableNorm inverse pulled / p.kappa / objectiveScale / greater 1 (z / p.kappa)
    dualCertificate := greater (e.variableNorm inverse pushed / p.kappa / greater 1 (x / p.kappa))
      (e.rowNorm inverse pushed / p.kappa / greater 1 ((x + s) / p.kappa))
    gainOfRows := -r.costOfRows / p.kappa
    gainOfVariables := -r.costOfVariables / p.kappa
    ratio := p.kappa / p.tau }

/-- How small the measures have to be. -/
structure Tolerances where
  gap : Float
  feasible : Float
  /-- The least gain of a certificate, and what may be left of it for each unit of gain. -/
  gain : Float
  certificate : Float
  /-- The ratio of `κ` to `τ` beyond which a certificate counts. -/
  ratio : Float

def Tolerances.full : Tolerances := ⟨1e-8, 1e-8, 1e-8, 1e-8, 1e9⟩

/-- The tolerances for a point where the search is stuck: a certificate may count earlier. -/
def Tolerances.stuck : Tolerances := ⟨1e-8, 1e-8, 1e-8, 1e-8, 1e6⟩

/-- The tolerances that will do where no more can be had. -/
def Tolerances.reduced : Tolerances := ⟨5e-5, 1e-4, 5e-12, 5e-5, 1e7⟩

/-- What a point shows. -/
inductive Verdict where
  | optimal
  | primalInfeasible
  | dualInfeasible

/-- What a point with given measures shows, if anything. -/
def Measures.verdict (m : Measures) (t : Tolerances) : Option Verdict :=
  let solved := (m.gap < t.gap || m.gapRelative < t.gap) && m.primal < t.feasible && m.dual < t.feasible
  if m.ratio ≤ 1 && solved then some .optimal
  else if t.ratio < m.ratio then
    if t.gain < m.gainOfRows && m.primalCertificate < t.certificate * m.gainOfRows then
      some .primalInfeasible
    else if t.gain < m.gainOfVariables && m.dualCertificate < t.certificate * m.gainOfVariables then
      some .dualInfeasible
    else none
  else none

def Verdict.word : Verdict → Word
  | optimal => .solved
  | primalInfeasible => .primalInfeasible
  | dualInfeasible => .dualInfeasible

/-- The word for a verdict to the reduced tolerances. -/
def Verdict.almostWord : Verdict → Word
  | optimal => .almostSolved
  | primalInfeasible => .almostPrimalInfeasible
  | dualInfeasible => .almostDualInfeasible

end QpReferee.Interior

import QpReferee.Solver.Interior.Reading
import QpReferee.Solver.Skyline

/-!
# Steps of an interior point method

From a point with positive slacks and multipliers, Newton's method goes towards a solution by steps
that keep them positive. Each step is computed twice: the first time straight to the solution, the
second time so that the products of slacks and multipliers stay together, the more the less of the
first step could have been taken. These are the steps of the method that stands in for a solver.

* `Systems.solve` : linear systems, solved with slightly shifted factors and improved afterwards.
* `firstPoint` : where to start.
* `Reading.next` : the next step.
-/

namespace QpReferee.Interior

variable (e : Setting)

/-! ## Systems -/

/-- The systems to be solved at a point: the matrix less the weights of the rows, and factors of nearly
the same. -/
structure Systems where
  matrix : Entries
  weights : Doubles
  factors : Skyline

/-- What is added to the diagonal, with the sign of the pivot, to make every system solvable. -/
def shift : Float := 1e-8

/-- The systems for some weights of the rows. -/
def Systems.make (weights : Doubles) : Systems where
  matrix := e.matrix
  weights := weights
  factors := (Skyline.ofEntries e.places e.matrix (.tabulate e.size fun i =>
    if i < e.unknowns then shift else -(weights.get! i + shift))).factor

def Systems.remainder (k : Systems) (right v : Doubles) : Doubles :=
  let product := k.matrix.addProduct v (.tabulate v.size fun i => -k.weights.get! i * v.get! i)
  .tabulate v.size fun i => right.get! i - product.get! i

/-- Improve a solution, at most so many times, until little is left of the right side, or the
remainder does not become much smaller. -/
def Systems.refine (k : Systems) (right v rest : Doubles) : (budget : Nat) → Doubles
  | 0 => v
  | budget + 1 =>
    if rest.norm ≤ 1e-12 + 1e-13 * right.norm then v
    else
      let step := k.factors.solve rest
      let better := Doubles.tabulate v.size fun i => v.get! i + step.get! i
      let less := k.remainder right better
      if less.norm * 5 ≤ rest.norm then k.refine right better less budget
      else if less.norm * 2 ≤ rest.norm then better
      else v

def Systems.solve (k : Systems) (right : Doubles) : Doubles :=
  let v := k.factors.solve right
  k.refine right v (k.remainder right v) 10

/-! ## Steps -/

/-- What a step aims at: the errors shrink by the part `reduction`; to first order, the products of
slacks and multipliers shrink by the numbers `change`, and the product of `τ` and `κ` by `lastChange`. -/
structure Aim where
  reduction : Float
  change : Doubles
  lastChange : Float

/-- The direction of a step. A system has been solved for the right side `g` already. -/
def direction (k : Systems) (unit : Doubles) (r : Reading) (aim : Aim) : Point :=
  let p := r.point
  let v := k.solve (.tabulate e.size fun i =>
    let error := -aim.reduction * r.errors.get! i
    if e.isSigned i then error + aim.change.get! i / p.w.get! i else error)
  let above := aim.reduction * r.gapError - aim.lastChange / p.tau + e.costs.dot v + 2 * r.curved.dot v
  let rest := Doubles.tabulate e.size fun i => p.w.get! i / p.tau - unit.get! i
  let below := p.kappa / p.tau - e.costs.dot unit + (e.curvature rest).dot rest -
    (e.curvature unit).dot unit
  let tau := above / below
  let w := Doubles.tabulate e.size fun i => v.get! i + tau * unit.get! i
  { w, tau
    s := .tabulate e.size fun i =>
      if e.isSigned i then -(aim.change.get! i + p.s.get! i * w.get! i) / p.w.get! i else 0
    kappa := -(aim.lastChange + p.kappa * tau) / p.tau }

/-- The part of a step, at most the given one, that a positive number can take. -/
def room (part a step : Float) : Float := if step < 0 && -a / step < part then -a / step else part

/-- The part of a step, at most the whole, that a point can take. -/
def Point.room (p d : Point) : Float :=
  let last := Interior.room (Interior.room 1 p.tau d.tau) p.kappa d.kappa
  (List.range e.size).foldl (fun part i =>
    if e.isSigned i then
      Interior.room (Interior.room part (p.w.get! i) (d.w.get! i)) (p.s.get! i) (d.s.get! i)
    else part) last

def Point.move (p d : Point) (part : Float) : Point where
  w := .tabulate p.w.size fun i => p.w.get! i + part * d.w.get! i
  s := .tabulate p.s.size fun i => p.s.get! i + part * d.s.get! i
  tau := p.tau + part * d.tau
  kappa := p.kappa + part * d.kappa

/-- The direction of the next step, and the part of it to be taken. The first step makes up for less of
what the products of its parts add to the slacks and multipliers. -/
def Reading.next (r : Reading) (isFirst : Bool) : Point × Float :=
  let p := r.point
  let k := Systems.make e (.tabulate e.size fun i =>
    if e.isSigned i then p.s.get! i / p.w.get! i else 0)
  let unit := k.solve e.conditions.g
  let products := Doubles.tabulate e.size fun i => p.s.get! i * p.w.get! i
  let straight := direction e k unit r ⟨1, products, p.tau * p.kappa⟩
  let part := p.room e straight
  let centring := (1 - part) * (1 - part) * (1 - part)
  let share := if isFirst then part else 1
  let target := centring * r.mean
  let d := direction e k unit r {
    reduction := 1 - centring
    change := .tabulate e.size fun i =>
      products.get! i + share * straight.s.get! i * straight.w.get! i - target
    lastChange := p.tau * p.kappa + share * straight.tau * straight.kappa - target }
  (d, 0.99 * p.room e d)

/-- Raise the entries of the inequalities so that the least of them is one, or a tenth of the mean of
their positive parts if that is more. Entries that are no less stay as they are; negative ones are
raised to zero first, since the whole rise could be lost to rounding in one sum. -/
def lift (v : Doubles) : Doubles :=
  let least := (List.range e.size).foldl (fun a i =>
    if e.isSigned i && v.get! i < a then v.get! i else a) (1 / 0)
  let sum := Doubles.sum e.size fun i => if e.isSigned i && 0 < v.get! i then v.get! i else 0
  let target := greater 1 (sum * 0.1 / e.signedCount.toFloat)
  let (first, second) :=
    if least ≤ 0 then (-least, target) else if least < target then (0, target - least) else (0, 0)
  .tabulate e.size fun i => if e.isSigned i then v.get! i + first + second else v.get! i

/-- The first point: the variables and slacks that come closest to the conditions, moved until all
slacks and multipliers are positive. Without a quadratic part the two are looked for separately. -/
def firstPoint : Point :=
  let k := Systems.make e (.tabulate e.size fun i => if e.isSigned i then 1 else 0)
  let slacksOf (v : Doubles) : Doubles :=
    .tabulate e.size fun i => if e.isSigned i then -v.get! i else 0
  let (w, s) :=
    if e.conditions.P.values.size = 0 then
      let x := k.solve (e.rowsOf e.conditions.g)
      let z := k.solve (e.variablesOf e.conditions.g)
      (Doubles.tabulate e.size fun i => if i < e.unknowns then x.get! i else z.get! i, slacksOf x)
    else
      let w := k.solve e.conditions.g
      (w, slacksOf w)
  { w := lift e w, s := lift e s, tau := 1, kappa := 1 }

end QpReferee.Interior

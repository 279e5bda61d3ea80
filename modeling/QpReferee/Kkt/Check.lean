import QpReferee.Kkt.Failure
import QpReferee.Kkt.Tolerance
import QpReferee.Problem

/-!
# The optimality check

A candidate `(x, y)` is optimal for a convex problem if it is feasible, its multipliers on inequality
rows are not negative, the gradient `Px + q + Aᵀy` vanishes, each inequality row has no slack or no
multiplier, and the primal and dual costs agree. Each condition is checked to a tolerance that grows
with the size of the numbers it is computed from.

* `RowReading` : what one row contributes; equality rows have no sign and no slack condition.
* `measure` : the products and the residuals, before any comparison.
* `check` : the first condition that fails, or the residuals. A comparison with a value that is no
  number fails.
-/

namespace QpReferee.Kkt

variable {T : Type} [Scalar T]

/-- What one row of the constraints contributes to the residuals. -/
structure RowReading (T : Type) where
  /-- The violation of the row. -/
  violation : T
  /-- The violation of the sign of its multiplier. -/
  sign : T
  /-- The slack that its multiplier has to be complementary to. -/
  slack : T

/-- The reading of a row of the given kind, from its product `ax`, its bound `b` and its multiplier
`y`. -/
def RowReading.of (kind : RowKind) (ax b y : T) : RowReading T :=
  match kind with
  | .equality => ⟨Scalar.abs (ax - b), 0, 0⟩
  | .inequality => ⟨Scalar.max (ax - b) 0, Scalar.max (-y) 0, b - ax⟩

def readRows (kinds : List RowKind) (ax b y : List T) : List (RowReading T) :=
  (kinds.zip (ax.zip (b.zip y))).map fun (kind, ax, b, y) => RowReading.of kind ax b y

/-- The products of a candidate with the data of a problem. -/
structure Products (T : Type) where
  ax : List T
  px : List T
  aty : List T

def products (p : Problem T) (x y : List T) : Checked (Products T) := do
  let ax ← p.A.gemv (Problem.zeroVector p.rows) x 1 0
  let px ← p.curvature x
  let aty ← p.A.gemvT (Problem.zeroVector p.unknowns) y 1 0
  return ⟨ax, px, aty⟩

/-- The residuals of a candidate, the costs it gives, and the gap between them. -/
structure Residuals (T : Type) where
  primal : T
  dualSign : T
  stationarity : T
  complementarity : T
  costPrimal : T
  costDual : T
  gapAbsolute : T
  gapRelative : T
  deriving Repr

/-- The sizes that the tolerances are relative to. -/
structure Scales (T : Type) where
  ax : T
  y : T
  gradient : T

def gradient (q : List T) (w : Products T) : Checked (List T) := do
  Vec.combine 1 w.aty 1 (← Vec.combine 1 q 1 w.px)

/-- The sizes of the vectors that the residuals are computed from. -/
def scales (q y : List T) (w : Products T) : Scales T where
  ax := Vec.norm w.ax
  y := Vec.norm y
  gradient := Scalar.max (Vec.norm w.px) (Scalar.max (Vec.norm q) (Vec.norm w.aty))

/-- Measure every residual of a candidate whose vectors have the right lengths. -/
def measure (p : Problem T) (x y : List T) (w : Products T) : Checked (Residuals T) := do
  let rows := readRows p.rowKinds w.ax p.b y
  let gradient ← gradient p.q w
  let complementarity ← Vec.hadamardNorm (rows.map (·.slack)) y
  let half := (← Vec.dot x w.px) / Scalar.ofNat 2
  let costPrimal := half + (← Vec.dot p.q x)
  let costDual := -half - (← Vec.dot p.b y)
  let gap := Scalar.abs (costPrimal - costDual)
  let size := Scalar.max 1 (Scalar.min (Scalar.abs costPrimal) (Scalar.abs costDual))
  return {
    primal := Vec.norm (rows.map (·.violation))
    dualSign := Vec.norm (rows.map (·.sign))
    stationarity := Vec.norm gradient
    complementarity, costPrimal, costDual
    gapAbsolute := gap
    gapRelative := gap / size }

/-- The tolerance for a quantity of the given size. -/
def toleranceAt (tier : Tier) (size : T) : T := tier.absolute + tier.relative * size

/-- Compare the residuals with their tolerances, in order. -/
def judge (tier : Tier) (s : Scales T) (r : Residuals T) : Except (Failure T) (Residuals T) := do
  compare r.primal s.ax .primalResidual
  compare r.dualSign s.y .dualSign
  compare r.stationarity s.gradient .stationarity
  compare r.complementarity (Scalar.max s.ax s.y) .complementarity
  unless Scalar.le r.gapAbsolute tier.absolute || Scalar.le r.gapRelative tier.relative do
    throw (.dualityGap r.gapAbsolute r.gapRelative tier.absolute)
  return r
where
  /-- Fail unless a residual is within the tolerance for the given size. -/
  compare (residual size : T) (failure : T → T → Failure T) : Except (Failure T) Unit :=
    if Scalar.le residual (toleranceAt tier size) then .ok ()
    else .error (failure residual (toleranceAt tier size))

/-- The vectors of a candidate, if they are present, of the right lengths and finite. -/
def admissible (p : Problem T) (c : Candidate T) : Except (Failure T) (List T × List T) :=
  match c.x, c.y with
  | some x, some y =>
    if x.length ≠ p.unknowns then .error (.badLength .x p.unknowns x.length)
    else if y.length ≠ p.rows then .error (.badLength .y p.rows y.length)
    else if !Vec.isFinite x then .error (.nonFinite .x)
    else if !Vec.isFinite y then .error (.nonFinite .y)
    else .ok (x, y)
  | _, _ => .error .missingSolution

/-- Check a candidate against the optimality conditions of a problem, whatever its producer claims. -/
def check (p : Problem T) (c : Candidate T) (tier : Tier) :
    Checked (Except (Failure T) (Residuals T)) := do
  match admissible p c with
  | .error failure => return .error failure
  | .ok (x, y) =>
    let w ← products p x y
    let r ← measure p x y w
    return judge tier (scales p.q y w) r

def isOptimal (p : Problem T) (c : Candidate T) (tier : Tier) : Checked Bool := do
  return (← check p c tier).isOk

end QpReferee.Kkt

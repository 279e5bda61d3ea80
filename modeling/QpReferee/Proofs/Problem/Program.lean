import QpReferee.Proofs.Problem.Built
import QpReferee.Proofs.Sparse.Dense

/-!
# The quadratic program of a problem

Over exact arithmetic a built problem is the program with the matrices and vectors that are stored:
minimize `½ uᵀHu + qᵀu` over the points with `Au = b` on equality rows and `Au ≤ b` on inequality rows.

* `Problem.hessian`, `Problem.constraints`, `Problem.linear`, `Problem.bound` : the data.
* `Problem.quadratic`, `Problem.cost`, `Problem.Feasible`, `Problem.Convex` : the program, and what makes it
  a convex one.
* `Problem.objective_ofFn` : the objective is the cost.
-/

namespace QpReferee

open Matrix

namespace Problem

section

variable {T : Type} (p : Problem T)

/-- The kind of a row of a built problem. -/
def kindAt (i : Fin p.rows) : RowKind := p.rowKinds.getD i .equality

def equalities : Finset (Fin p.rows) := Finset.univ.filter fun i => p.kindAt i = .equality

def inequalities : Finset (Fin p.rows) := Finset.univ.filter fun i => p.kindAt i = .inequality

theorem mem_equalities {i : Fin p.rows} : i ∈ p.equalities ↔ p.kindAt i = .equality := by
  simp [equalities]

theorem mem_inequalities {i : Fin p.rows} : i ∈ p.inequalities ↔ p.kindAt i = .inequality := by
  simp [inequalities]

theorem ofFn_kindAt [Scalar T] {p : Problem T} (hp : p.Shaped) : List.ofFn p.kindAt = p.rowKinds := by
  refine List.ext_getElem (by rw [List.length_ofFn, hp.kinds]) fun i h1 h2 => ?_
  rw [List.getElem_ofFn, kindAt, List.getD_eq_getElem?_getD, List.getElem?_eq_getElem h2,
    Option.getD_some]

variable [Zero T]

/-- The full symmetric matrix of the quadratic part. -/
def hessian : Matrix (Fin p.unknowns) (Fin p.unknowns) T := p.P.mirrored p.unknowns

def constraints : Matrix (Fin p.rows) (Fin p.unknowns) T := p.A.dense p.rows p.unknowns

def linear : Fin p.unknowns → T := coords p.unknowns p.q

def bound : Fin p.rows → T := coords p.rows p.b

theorem ofFn_linear : List.ofFn p.linear = p.q := ofFn_coords rfl

theorem ofFn_bound : List.ofFn p.bound = p.b := ofFn_coords rfl

theorem hessian_transpose : p.hessianᵀ = p.hessian := p.P.mirrored_transpose p.unknowns

end

variable {K : Type} [OrderedField K] (p : Problem K)

def quadratic (u : Fin p.unknowns → K) : K := u ⬝ᵥ p.hessian *ᵥ u / 2

def cost (u : Fin p.unknowns → K) : K := p.quadratic u + p.linear ⬝ᵥ u

/-- The points that satisfy each row by its kind. -/
structure Feasible (u : Fin p.unknowns → K) : Prop where
  equality : ∀ i ∈ p.equalities, (p.constraints *ᵥ u) i = p.bound i
  inequality : ∀ i ∈ p.inequalities, (p.constraints *ᵥ u) i ≤ p.bound i

/-- The hessian is positive semidefinite. -/
def Convex : Prop := ∀ v, 0 ≤ v ⬝ᵥ p.hessian *ᵥ v

variable {p}

theorem zeroVector_eq (n : ℕ) : (zeroVector n : List K) = List.ofFn fun _ : Fin n => (0 : K) := by
  rw [zeroVector, List.ofFn_const]

section Triangle

variable (hP : p.P.WellFormed) (hrows : p.P.rows = p.unknowns) (hcols : p.P.cols = p.unknowns)
  (hupper : p.P.isUpper = .ok true) (u : Fin p.unknowns → K)

include hP hrows hcols hupper

theorem curvature_of_triangle : p.curvature (List.ofFn u) = .ok (List.ofFn (p.hessian *ᵥ u)) := by
  have h := hP.upperSymv_ofFn hrows hcols hupper u (fun _ => 0) 1 0
  rw [← zeroVector_eq] at h
  unfold curvature
  refine h.trans (congrArg (Except.ok ∘ List.ofFn) (funext fun i => ?_))
  rw [one_mul, zero_mul, add_zero]
  rfl

theorem objective_of_triangle : p.objective (List.ofFn u) = .ok (p.cost u) := by
  have hlinear := Vec.dot_ofFn p.linear u
  rw [ofFn_linear] at hlinear
  unfold objective
  rw [curvature_of_triangle hP hrows hcols hupper, Checked.ok_bind, Vec.dot_ofFn, Checked.ok_bind, hlinear,
    Checked.ok_bind]
  refine congrArg Except.ok ?_
  rw [cost, quadratic, Scalar.ofNat_exact, Nat.cast_ofNat, one_div_mul_eq_div]

end Triangle

theorem curvature_ofFn (hp : p.Shaped) (u : Fin p.unknowns → K) :
    p.curvature (List.ofFn u) = .ok (List.ofFn (p.hessian *ᵥ u)) :=
  curvature_of_triangle hp.hessian hp.hessian_rows hp.hessian_cols hp.hessian_upper u

theorem objective_ofFn (hp : p.Shaped) (u : Fin p.unknowns → K) :
    p.objective (List.ofFn u) = .ok (p.cost u) :=
  objective_of_triangle hp.hessian hp.hessian_rows hp.hessian_cols hp.hessian_upper u

end Problem

end QpReferee

import Mathlib.Tactic.Linarith
import QpReferee.Proofs.Kkt.Reference

/-!
# What acceptance certifies

The residuals of an accepted candidate bound from below what any feasible point of a convex problem
costs. With `g = Hx + q + Aᵀy` the cost of a point `z` is at least

`cost x + gᵀ(z - x) + yᵀ(b - Az) - yᵀ(b - Ax)`,

and each of the three products is bounded by a residual: the first by the stationarity, the others row
by row, by the primal violation on an equality row and by the sign and the slack on an inequality row.

* `Problem.cost_expansion` : the cost is quadratic around a point.
* `Kkt.rowGain`, `Kkt.equality_gain`, `Kkt.inequality_gain` : the products of one row, and their bounds.
* `Kkt.cost_le_of_feasible` : the bound, from the reference residuals.
* `Kkt.accepted_certifies` : **the bound for an accepted candidate, and optimality if its residuals
  vanish.**
-/

namespace QpReferee

open Matrix

variable {K : Type} [OrderedField K]

/-! ## The Lagrangian bound -/

namespace Problem

variable (p : Problem K)

theorem hessian_comm (u v : Fin p.unknowns → K) : u ⬝ᵥ p.hessian *ᵥ v = v ⬝ᵥ p.hessian *ᵥ u := by
  rw [dotProduct_mulVec, ← mulVec_transpose, p.hessian_transpose, dotProduct_comm]

theorem cost_expansion (x z : Fin p.unknowns → K) :
    p.cost z = p.cost x + (p.hessian *ᵥ x + p.linear) ⬝ᵥ (z - x) +
      (z - x) ⬝ᵥ p.hessian *ᵥ (z - x) / 2 := by
  have hmixed := p.hessian_comm x z
  simp only [cost, quadratic, mulVec_sub, dotProduct_sub, sub_dotProduct, add_dotProduct,
    dotProduct_comm (p.hessian *ᵥ x)]
  rw [hmixed]
  ring

theorem sum_rows (f : Fin p.rows → K) :
    ∑ i, f i = ∑ i ∈ p.equalities, f i + ∑ i ∈ p.inequalities, f i := by
  rw [← Finset.sum_filter_add_sum_filter_not Finset.univ fun i => p.kindAt i = .equality]
  congr 1
  refine Finset.sum_congr (Finset.ext fun i => ?_) fun i _ => rfl
  rw [mem_inequalities, Finset.mem_filter]
  cases p.kindAt i <;> simp

end Problem

namespace Kkt

/-- What a row adds to the Lagrangian on the way from the candidate to a point. -/
def rowGain (p : Problem K) (x z : Fin p.unknowns → K) (y : Fin p.rows → K) (i : Fin p.rows) : K :=
  y i * (p.bound i - (p.constraints *ᵥ z) i) - y i * (p.bound i - (p.constraints *ᵥ x) i)

section

variable {p : Problem K} {x z : Fin p.unknowns → K} {y : Fin p.rows → K}

theorem abs_violation_le {i : Fin p.rows} (hi : i ∈ p.equalities) :
    |(p.constraints *ᵥ x) i - p.bound i| ≤ (reference p x y).primal := by
  have hle : rowViolation p x i ≤ (reference p x y).primal := le_maxOver (Finset.mem_univ i)
  rwa [rowViolation, p.mem_equalities.mp hi] at hle

theorem abs_slack_mul_le {i : Fin p.rows} (hi : i ∈ p.inequalities) :
    |(p.bound i - (p.constraints *ᵥ x) i) * y i| ≤ (reference p x y).complementarity :=
  le_maxOver (f := fun i => |(p.bound i - (p.constraints *ᵥ x) i) * y i|) hi

theorem equality_gain (hz : p.Feasible z) {i : Fin p.rows} (hi : i ∈ p.equalities) :
    -((reference p x y).primal * |y i|) ≤ rowGain p x z y i := by
  calc -((reference p x y).primal * |y i|) ≤ -(|(p.constraints *ᵥ x) i - p.bound i| * |y i|) :=
        neg_le_neg (mul_le_mul_of_nonneg_right (abs_violation_le hi) (abs_nonneg _))
    _ = -|y i * ((p.constraints *ᵥ x) i - p.bound i)| := by rw [abs_mul, mul_comm]
    _ ≤ y i * ((p.constraints *ᵥ x) i - p.bound i) := neg_abs_le _
    _ = rowGain p x z y i := by
        rw [rowGain, hz.equality i hi]
        ring

/-- On an inequality row the multiplier is at least the negated sign residual, and the slack of the
candidate times its multiplier is at most the complementarity residual. -/
theorem inequality_gain (hz : p.Feasible z) {i : Fin p.rows} (hi : i ∈ p.inequalities) :
    -((reference p x y).dualSign * (p.bound i - (p.constraints *ᵥ z) i)) -
        (reference p x y).complementarity ≤ rowGain p x z y i := by
  have hslack : 0 ≤ p.bound i - (p.constraints *ᵥ z) i := sub_nonneg.mpr (hz.inequality i hi)
  have hsign : max (-y i) 0 ≤ (reference p x y).dualSign :=
    le_maxOver (f := fun i => max (-y i) 0) hi
  have hmultiplier : -(reference p x y).dualSign ≤ y i := neg_le.mp ((le_max_left _ _).trans hsign)
  refine sub_le_sub ?_ ?_
  · rw [← neg_mul]
    exact mul_le_mul_of_nonneg_right hmultiplier hslack
  · rw [mul_comm]
    exact (le_abs_self _).trans (abs_slack_mul_le hi)

theorem equalities_gain (hz : p.Feasible z) :
    -((reference p x y).primal * ∑ i ∈ p.equalities, |y i|) ≤ ∑ i ∈ p.equalities, rowGain p x z y i := by
  rw [Finset.mul_sum, ← Finset.sum_neg_distrib]
  exact Finset.sum_le_sum fun i hi => equality_gain hz hi

theorem inequalities_gain (hz : p.Feasible z) :
    -((reference p x y).dualSign * ∑ i ∈ p.inequalities, (p.bound i - (p.constraints *ᵥ z) i)) -
        p.inequalities.card * (reference p x y).complementarity ≤
      ∑ i ∈ p.inequalities, rowGain p x z y i := by
  rw [Finset.mul_sum, ← Finset.sum_neg_distrib, ← nsmul_eq_mul, ← Finset.sum_const,
    ← Finset.sum_sub_distrib]
  exact Finset.sum_le_sum fun i hi => inequality_gain hz hi

/-- The slope of the cost is that of the Lagrangian, but for what the rows add. -/
theorem slope_eq (p : Problem K) (x z : Fin p.unknowns → K) (y : Fin p.rows → K) :
    (p.hessian *ᵥ x + p.linear) ⬝ᵥ (z - x) =
      (p.hessian *ᵥ x + p.linear + p.constraintsᵀ *ᵥ y) ⬝ᵥ (z - x) + ∑ i, rowGain p x z y i := by
  have htransposed : (p.constraintsᵀ *ᵥ y) ⬝ᵥ (z - x) = y ⬝ᵥ p.constraints *ᵥ (z - x) := by
    rw [mulVec_transpose, ← dotProduct_mulVec]
  have hrows : y ⬝ᵥ p.constraints *ᵥ (z - x) = -∑ i, rowGain p x z y i := by
    rw [mulVec_sub, dotProduct, ← Finset.sum_neg_distrib]
    refine Finset.sum_congr rfl fun i _ => ?_
    rw [Pi.sub_apply, rowGain]
    ring
  rw [add_dotProduct (p.hessian *ᵥ x + p.linear), htransposed, hrows]
  ring

/-- **A feasible point costs at least what the candidate costs, less what the residuals allow.** -/
theorem cost_le_of_feasible (hconvex : p.Convex) (hz : p.Feasible z) :
    p.cost x - (reference p x y).stationarity * ∑ j, |z j - x j| -
        (reference p x y).dualSign * ∑ i ∈ p.inequalities, (p.bound i - (p.constraints *ᵥ z) i) -
        p.inequalities.card * (reference p x y).complementarity -
        (reference p x y).primal * ∑ i ∈ p.equalities, |y i| ≤ p.cost z := by
  have hgradient : -((reference p x y).stationarity * ∑ j, |z j - x j|) ≤
      (p.hessian *ᵥ x + p.linear + p.constraintsᵀ *ᵥ y) ⬝ᵥ (z - x) :=
    (abs_le.mp (abs_dotProduct_le _ (z - x))).1
  have hequalities := equalities_gain (x := x) (y := y) hz
  have hinequalities := inequalities_gain (x := x) (y := y) hz
  have hcurved : 0 ≤ (z - x) ⬝ᵥ p.hessian *ᵥ (z - x) / 2 := div_nonneg (hconvex (z - x)) zero_le_two
  rw [p.cost_expansion x z, slope_eq p x z y, p.sum_rows]
  linarith

theorem feasible_of_primal_eq_zero (h : (reference p x y).primal = 0) : p.Feasible x := by
  have hrow : ∀ i, rowViolation p x i ≤ 0 := fun i => h ▸ le_maxOver (Finset.mem_univ i)
  refine ⟨fun i hi => ?_, fun i hi => ?_⟩
  · have hle := hrow i
    rw [rowViolation, p.mem_equalities.mp hi] at hle
    exact sub_eq_zero.mp (abs_nonpos_iff.mp hle)
  · have hle := hrow i
    rw [rowViolation, p.mem_inequalities.mp hi] at hle
    exact sub_nonpos.mp ((le_max_left _ _).trans hle)

end

/-! ## Accepted candidates -/

/-- **What acceptance certifies.** The residuals of an accepted candidate bound the cost of every feasible
point of a convex problem from below. If they vanish, the candidate is feasible and no feasible point
costs less. -/
theorem accepted_certifies {p : Problem K} (hp : p.Built) (hconvex : p.Convex) {x y : List K}
    {tier : Tier} {r : Residuals K} (haccepted : check p ⟨some x, some y⟩ tier = .ok (.ok r)) :
    ∃ fx, p.objective x = .ok fx ∧
      (∀ z, p.Feasible z → ∃ fz, p.objective (List.ofFn z) = .ok fz ∧
        fx - r.stationarity * ∑ j, |z j - coords p.unknowns x j| -
          r.dualSign * ∑ i ∈ p.inequalities, (p.bound i - (p.constraints *ᵥ z) i) -
          p.inequalities.card * r.complementarity -
          r.primal * ∑ i ∈ p.equalities, |coords p.rows y i| ≤ fz) ∧
      (r.stationarity = 0 → r.dualSign = 0 → r.complementarity = 0 → r.primal = 0 →
        p.Feasible (coords p.unknowns x) ∧
          ∀ z, p.Feasible z → ∃ fz, p.objective (List.ofFn z) = .ok fz ∧ fx ≤ fz) := by
  obtain ⟨hx, rfl⟩ := reference_of_check hp haccepted
  have hobjective := Problem.objective_ofFn hp.shaped (coords p.unknowns x)
  rw [ofFn_coords hx] at hobjective
  refine ⟨_, hobjective, fun z hz => ?_, fun hstationarity hsign hcomplementarity hprimal => ?_⟩
  · exact ⟨_, Problem.objective_ofFn hp.shaped z, cost_le_of_feasible hconvex hz⟩
  · refine ⟨feasible_of_primal_eq_zero hprimal, fun z hz => ?_⟩
    have hle := cost_le_of_feasible (x := coords p.unknowns x) (y := coords p.rows y) hconvex hz
    rw [hstationarity, hsign, hcomplementarity, hprimal] at hle
    refine ⟨_, Problem.objective_ofFn hp.shaped z, ?_⟩
    simpa using hle

theorem squarePastOne_convex : squarePastOne.Convex := by
  intro (v : Fin 1 → ℚ)
  have hentry : squarePastOne.P.mirrored 1 0 0 = 2 := by with_unfolding_all rfl
  change 0 ≤ ∑ i : Fin 1, v i * ∑ j : Fin 1, squarePastOne.P.mirrored 1 i j * v j
  rw [Fin.sum_univ_one, Fin.sum_univ_one, hentry, mul_left_comm]
  exact mul_nonneg zero_le_two (mul_self_nonneg (v 0))

/-- No point beyond one has a smaller square than one. -/
theorem squarePastOne_certified :
    squarePastOne.Feasible (coords 1 [1]) ∧ ∀ z, squarePastOne.Feasible z →
      ∃ fz, @Problem.objective ℚ (.exact ℚ) squarePastOne (List.ofFn z) = .ok fz ∧ 1 ≤ fz := by
  have hrun : @check ℚ (.exact ℚ) squarePastOne ⟨some [1], some [2]⟩ .high =
      .ok (.ok ⟨0, 0, 0, 0, 1, 1, 0, 0⟩) := by
    with_unfolding_all rfl
  obtain ⟨fx, hfx, -, hoptimal⟩ := accepted_certifies squarePastOne_built squarePastOne_convex hrun
  have hvalue : @Problem.objective ℚ (.exact ℚ) squarePastOne [1] = .ok 1 := by with_unfolding_all rfl
  have hone : 1 = fx := Except.ok.inj (hvalue.symm.trans hfx)
  subst hone
  exact hoptimal rfl rfl rfl rfl

end Kkt

end QpReferee

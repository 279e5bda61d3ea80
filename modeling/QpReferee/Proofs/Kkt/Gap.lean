import QpReferee.Proofs.Kkt.Certificate

/-!
# The gap and the other residuals

The gap is measured on a way of its own, from the costs. It still says nothing that the other residuals do
not: with `g = Hx + q + Aᵀy` the costs of a pair differ by

`xᵀg + yᵀ(b - Ax)`,

so a pair with small residuals has a small gap, and one that satisfies the conditions exactly has none.

* `Kkt.gap_eq` : the difference of the costs.
* `Kkt.gap_le` : the bound, from the reference residuals.
* `Kkt.Exactly`, `Kkt.check_of_exactly` : pairs that satisfy the conditions exactly are accepted.
* `Kkt.gap_agrees` : **the gap agrees with the other checks.**
-/

namespace QpReferee

open Matrix

variable {K : Type} [OrderedField K]

namespace Kkt

variable {p : Problem K}

section

variable (p) (x : Fin p.unknowns → K) (y : Fin p.rows → K)

theorem gap_eq : p.cost x - dualCost p x y =
    x ⬝ᵥ (p.hessian *ᵥ x + p.linear + p.constraintsᵀ *ᵥ y) +
      y ⬝ᵥ (p.bound - p.constraints *ᵥ x) := by
  have htransposed : x ⬝ᵥ p.constraintsᵀ *ᵥ y = y ⬝ᵥ p.constraints *ᵥ x := by
    rw [mulVec_transpose, dotProduct_comm, ← dotProduct_mulVec]
  simp only [Problem.cost, Problem.quadratic, dualCost, dotProduct_add, dotProduct_sub, htransposed,
    dotProduct_comm p.linear, dotProduct_comm p.bound]
  ring

theorem rows_gap_le : |y ⬝ᵥ (p.bound - p.constraints *ᵥ x)| ≤
    p.inequalities.card * (reference p x y).complementarity +
      (reference p x y).primal * ∑ i ∈ p.equalities, |y i| := by
  have hequalities : |∑ i ∈ p.equalities, y i * (p.bound - p.constraints *ᵥ x) i| ≤
      (reference p x y).primal * ∑ i ∈ p.equalities, |y i| := by
    rw [Finset.mul_sum]
    refine (Finset.abs_sum_le_sum_abs _ _).trans (Finset.sum_le_sum fun i hi => ?_)
    rw [abs_mul, mul_comm, Pi.sub_apply, abs_sub_comm]
    exact mul_le_mul_of_nonneg_right (abs_violation_le hi) (abs_nonneg _)
  have hinequalities : |∑ i ∈ p.inequalities, y i * (p.bound - p.constraints *ᵥ x) i| ≤
      p.inequalities.card * (reference p x y).complementarity := by
    rw [← nsmul_eq_mul]
    refine (Finset.abs_sum_le_sum_abs _ _).trans (Finset.sum_le_card_nsmul _ _ _ fun i hi => ?_)
    rw [mul_comm]
    exact abs_slack_mul_le hi
  rw [dotProduct, p.sum_rows]
  refine (abs_add_le _ _).trans ?_
  linarith

/-- The gap is at most what the residuals and the sizes of the pair allow. -/
theorem gap_le : (reference p x y).gapAbsolute ≤
    (∑ j, |x j|) * (reference p x y).stationarity +
      p.inequalities.card * (reference p x y).complementarity +
      (reference p x y).primal * ∑ i ∈ p.equalities, |y i| := by
  have hslope : |x ⬝ᵥ (p.hessian *ᵥ x + p.linear + p.constraintsᵀ *ᵥ y)| ≤
      (∑ j, |x j|) * (reference p x y).stationarity := by
    rw [dotProduct_comm, mul_comm]
    exact abs_dotProduct_le _ x
  have hrows := rows_gap_le p x y
  show |p.cost x - dualCost p x y| ≤ _
  rw [gap_eq]
  refine (abs_add_le _ _).trans ?_
  linarith

end

/-! ## Exact pairs -/

/-- A pair that satisfies the optimality conditions exactly. -/
structure Exactly (p : Problem K) (x : Fin p.unknowns → K) (y : Fin p.rows → K) : Prop where
  feasible : p.Feasible x
  sign : ∀ i ∈ p.inequalities, 0 ≤ y i
  stationary : p.hessian *ᵥ x + p.linear + p.constraintsᵀ *ᵥ y = 0
  complementary : ∀ i ∈ p.inequalities, y i * (p.bound i - (p.constraints *ᵥ x) i) = 0

namespace Exactly

variable {x : Fin p.unknowns → K} {y : Fin p.rows → K}

theorem primal (h : Exactly p x y) : (reference p x y).primal = 0 := by
  show maxOver Finset.univ (rowViolation p x) = 0
  apply maxOver_eq_zero
  intro i _
  rw [rowViolation]
  cases hkind : p.kindAt i with
  | equality =>
    have hrow := h.feasible.equality i (p.mem_equalities.mpr hkind)
    simp [hrow]
  | inequality =>
    have hrow := h.feasible.inequality i (p.mem_inequalities.mpr hkind)
    simp [hrow]

theorem dualSign (h : Exactly p x y) : (reference p x y).dualSign = 0 := by
  show maxOver p.inequalities (fun i => max (-y i) 0) = 0
  apply maxOver_eq_zero
  intro i hi
  simpa using h.sign i hi

theorem stationarity (h : Exactly p x y) : (reference p x y).stationarity = 0 := by
  show supNorm (p.hessian *ᵥ x + p.linear + p.constraintsᵀ *ᵥ y) = 0
  rw [h.stationary]
  apply maxOver_eq_zero
  simp

theorem complementarity (h : Exactly p x y) : (reference p x y).complementarity = 0 := by
  show maxOver p.inequalities (fun i => |(p.bound i - (p.constraints *ᵥ x) i) * y i|) = 0
  apply maxOver_eq_zero
  intro i hi
  rw [mul_comm, h.complementary i hi, abs_zero]

theorem gap (h : Exactly p x y) : (reference p x y).gapAbsolute = 0 := by
  have hle := gap_le p x y
  rw [h.stationarity, h.complementarity, h.primal] at hle
  have hnonneg : 0 ≤ (reference p x y).gapAbsolute := abs_nonneg _
  linarith

theorem holds (h : Exactly p x y) {ε : K} (hε : 0 < ε) : ∀ d ∈ optimality p x y ε, d.holds := by
  have htolerance : ∀ {residual size : K}, residual = 0 → 0 ≤ size → residual ≤ ε + ε * size := by
    intro residual size hresidual hsize
    have := mul_nonneg hε.le hsize
    linarith
  have hgap : (reference p x y).gapAbsolute ≤ ε := h.gap.trans_le hε.le
  simp only [optimality, List.forall_mem_cons, within]
  refine ⟨?_, ?_, ?_, ?_, .inl hgap, by simp⟩
  · exact htolerance h.primal (supNorm_nonneg _)
  · exact htolerance h.dualSign (supNorm_nonneg _)
  · exact htolerance h.stationarity (le_max_of_le_left (supNorm_nonneg _))
  · exact htolerance h.complementarity (le_max_of_le_left (supNorm_nonneg _))

end Exactly

theorem check_of_exactly (hp : p.Built) {x y : List K} (hx : x.length = p.unknowns)
    (hy : y.length = p.rows) (h : Exactly p (coords p.unknowns x) (coords p.rows y)) (tier : Tier) :
    check p ⟨some x, some y⟩ tier =
      .ok (.ok (reference p (coords p.unknowns x) (coords p.rows y))) := by
  refine (judges_check hp x y tier).eq_ok_iff.mpr ⟨?_, rfl⟩
  simp only [conditions, List.forall_mem_cons]
  exact ⟨⟨rfl, rfl⟩, hx, hy, h.holds (absolute_pos tier)⟩

theorem measured_reference (hp : p.Built) {x y : List K} (hx : x.length = p.unknowns)
    (hy : y.length = p.rows) : ∃ w, products p x y = .ok w ∧
      measure p x y w = .ok (reference p (coords p.unknowns x) (coords p.rows y)) := by
  have hproducts := products_ofFn hp.shaped (coords p.unknowns x) (coords p.rows y)
  have hmeasure := measure_ofFn hp.shaped (coords p.unknowns x) (coords p.rows y)
  rw [ofFn_coords hx, ofFn_coords hy] at hproducts hmeasure
  exact ⟨_, hproducts, hmeasure⟩

/-- **The gap agrees with the other checks.** The costs that are measured of a pair differ by the products
of the pair with its gradient and its slacks; so the gap of an accepted pair is bounded by its other
residuals, and a pair that satisfies the conditions exactly is accepted at either tier without a gap, whether
or not the problem is convex. -/
theorem gap_agrees (hp : p.Built) :
    (∀ x y : List K, x.length = p.unknowns → y.length = p.rows →
      ∃ w r, products p x y = .ok w ∧ measure p x y w = .ok r ∧
        r.costPrimal - r.costDual =
          coords p.unknowns x ⬝ᵥ (p.hessian *ᵥ coords p.unknowns x + p.linear +
            p.constraintsᵀ *ᵥ coords p.rows y) +
          coords p.rows y ⬝ᵥ (p.bound - p.constraints *ᵥ coords p.unknowns x)) ∧
    (∀ (x y : List K) (tier : Tier) (r : Residuals K), check p ⟨some x, some y⟩ tier = .ok (.ok r) →
      r.gapAbsolute ≤ (∑ j, |coords p.unknowns x j|) * r.stationarity +
        p.inequalities.card * r.complementarity +
        r.primal * ∑ i ∈ p.equalities, |coords p.rows y i|) ∧
    ∀ x y : List K, x.length = p.unknowns → y.length = p.rows →
      Exactly p (coords p.unknowns x) (coords p.rows y) →
        ∀ tier, ∃ r, check p ⟨some x, some y⟩ tier = .ok (.ok r) ∧ r.gapAbsolute = 0 := by
  refine ⟨?_, ?_, ?_⟩
  · intro x y hx hy
    obtain ⟨w, hproducts, hmeasure⟩ := measured_reference hp hx hy
    exact ⟨w, _, hproducts, hmeasure, gap_eq p _ _⟩
  · intro x y tier r hcheck
    obtain ⟨-, rfl⟩ := reference_of_check hp hcheck
    exact gap_le p _ _
  · intro x y hx hy h tier
    exact ⟨_, check_of_exactly hp hx hy h tier, h.gap⟩

/-- Minimize `v - u²` subject to `v = 3` and `u ≤ 1`, which is not convex. -/
def ridge : Problem ℚ where
  P := ⟨2, 2, #[0, 1, 1], #[0], #[-2]⟩
  q := [0, 1]
  A := ⟨2, 2, #[0, 1, 2], #[1, 0], #[1, 1]⟩
  b := [3, 1]
  blocks := [⟨.equality, 1⟩, ⟨.inequality, 1⟩]

theorem ridge_built : @Problem.Built ℚ (.exact ℚ) ridge := by
  with_unfolding_all rfl

theorem ridge_exactly :
    Exactly ridge (coords ridge.unknowns [1, 3]) (coords ridge.rows [-1, 2]) where
  feasible := ⟨by decide +kernel, by decide +kernel⟩
  sign := by decide +kernel
  stationary := by
    apply funext
    show ∀ j : Fin 2, (ridge.hessian *ᵥ coords 2 [1, 3] + ridge.linear +
      ridge.constraintsᵀ *ᵥ coords 2 [-1, 2]) j = 0
    decide +kernel
  complementary := by decide +kernel

/-- The top of a ridge, where the cost is largest, is accepted without a gap. -/
theorem ridge_accepted :
    ∃ r, @check ℚ (.exact ℚ) ridge ⟨some [1, 3], some [-1, 2]⟩ .high = .ok (.ok r) ∧
      r.gapAbsolute = 0 := by
  obtain ⟨-, -, haccepted⟩ := gap_agrees ridge_built
  exact haccepted [1, 3] [-1, 2] rfl rfl ridge_exactly .high

end Kkt

end QpReferee

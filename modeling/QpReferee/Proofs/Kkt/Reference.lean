import QpReferee.Kkt.Check
import QpReferee.Proofs.Kkt.Accepted
import QpReferee.Proofs.Problem.Program

/-!
# The check and the optimality conditions

Over exact arithmetic the check decides the optimality conditions that a matrix program has, to a
tolerance: the residuals that it measures are the reference ones, and it answers with the first
condition that fails.

* `Kkt.reference` : the residuals of a candidate, from the matrices of the problem.
* `Kkt.conditions` : the conditions in the order in which they are checked, each with its failure.
* `Kkt.measure_ofFn` : the measured residuals are the reference ones.
* `Kkt.check_exact` : **the check accepts exactly if all conditions hold, with the reference residuals,
  and otherwise answers with the first that does not.**
-/

namespace QpReferee

open Matrix

namespace Kkt

variable {K : Type} [OrderedField K]

/-! ## The reference -/

section

variable (p : Problem K) (x : Fin p.unknowns → K) (y : Fin p.rows → K)

def rowViolation (i : Fin p.rows) : K :=
  match p.kindAt i with
  | .equality => |(p.constraints *ᵥ x) i - p.bound i|
  | .inequality => max ((p.constraints *ᵥ x) i - p.bound i) 0

def dualCost : K := -p.quadratic x - p.bound ⬝ᵥ y

def reference : Residuals K where
  primal := maxOver Finset.univ (rowViolation p x)
  dualSign := maxOver p.inequalities fun i => max (-y i) 0
  stationarity := supNorm (p.hessian *ᵥ x + p.linear + p.constraintsᵀ *ᵥ y)
  complementarity := maxOver p.inequalities fun i => |(p.bound i - (p.constraints *ᵥ x) i) * y i|
  costPrimal := p.cost x
  costDual := dualCost p x y
  gapAbsolute := |p.cost x - dualCost p x y|
  gapRelative := |p.cost x - dualCost p x y| / max 1 (min |p.cost x| |dualCost p x y|)

end

/-- A residual is within the tolerance for a size. -/
def within (ε residual size : K) (failure : K → K → Failure K) : Condition (Failure K) :=
  ⟨residual ≤ ε + ε * size, failure residual (ε + ε * size)⟩

/-- The optimality conditions of a candidate, to a tolerance. -/
def optimality (p : Problem K) (x : Fin p.unknowns → K) (y : Fin p.rows → K) (ε : K) :
    List (Condition (Failure K)) :=
  let r := reference p x y
  let ax := supNorm (p.constraints *ᵥ x)
  let gradient := max (supNorm (p.hessian *ᵥ x))
    (max (supNorm p.linear) (supNorm (p.constraintsᵀ *ᵥ y)))
  [within ε r.primal ax .primalResidual,
    within ε r.dualSign (supNorm y) .dualSign,
    within ε r.stationarity gradient .stationarity,
    within ε r.complementarity (max ax (supNorm y)) .complementarity,
    ⟨r.gapAbsolute ≤ ε ∨ r.gapRelative ≤ ε, .dualityGap r.gapAbsolute r.gapRelative ε⟩]

/-- Everything that is demanded of a candidate, in order. -/
def conditions (p : Problem K) (c : Candidate K) (ε : K) : List (Condition (Failure K)) :=
  ⟨c.x.isSome ∧ c.y.isSome, .missingSolution⟩ ::
    match c.x, c.y with
    | some x, some y =>
      ⟨x.length = p.unknowns, .badLength .x p.unknowns x.length⟩ ::
        ⟨y.length = p.rows, .badLength .y p.rows y.length⟩ ::
          optimality p (coords p.unknowns x) (coords p.rows y) ε
    | _, _ => []

/-! ## What the check measures -/

variable {p : Problem K}

theorem products_ofFn (hp : p.Shaped) (x : Fin p.unknowns → K) (y : Fin p.rows → K) :
    products p (List.ofFn x) (List.ofFn y) =
      .ok ⟨List.ofFn (p.constraints *ᵥ x), List.ofFn (p.hessian *ᵥ x),
        List.ofFn (p.constraintsᵀ *ᵥ y)⟩ := by
  have hax := hp.constraints.gemv_ofFn hp.constraints_rows hp.constraints_cols x (fun _ => 0) 1 0
  have haty := hp.constraints.gemvT_ofFn hp.constraints_rows hp.constraints_cols y (fun _ => 0) 1 0
  simp only [← Problem.zeroVector_eq, one_mul, zero_mul, add_zero] at hax haty
  unfold products
  rw [hax, Checked.ok_bind, Problem.curvature_ofFn hp, Checked.ok_bind, haty, Checked.ok_bind]
  rfl

theorem readRows_ofFn {m : ℕ} (kinds : Fin m → RowKind) (ax b y : Fin m → K) :
    readRows (List.ofFn kinds) (List.ofFn ax) (List.ofFn b) (List.ofFn y) =
      List.ofFn fun i => RowReading.of (kinds i) (ax i) (b i) (y i) := by
  rw [readRows, zip_ofFn, zip_ofFn, zip_ofFn, List.map_ofFn]
  rfl

theorem gradient_ofFn (px aty : Fin p.unknowns → K) (ax : List K) :
    gradient p.q ⟨ax, List.ofFn px, List.ofFn aty⟩ = .ok (List.ofFn (px + p.linear + aty)) := by
  have hhalf := Vec.combine_ofFn 1 1 p.linear px
  rw [Problem.ofFn_linear] at hhalf
  rw [gradient, hhalf, Checked.ok_bind, Vec.combine_ofFn]
  refine congrArg (Except.ok ∘ List.ofFn) (funext fun i => ?_)
  simp only [one_mul, Pi.add_apply]
  ring

/-- The reading of a row of a candidate. -/
def rowReading (p : Problem K) (x : Fin p.unknowns → K) (y : Fin p.rows → K) (i : Fin p.rows) :
    RowReading K :=
  RowReading.of (p.kindAt i) ((p.constraints *ᵥ x) i) (p.bound i) (y i)

section

variable (p) (x : Fin p.unknowns → K) (y : Fin p.rows → K)

variable {p x y} in
theorem rowReading_of_inequality {i : Fin p.rows} (hi : i ∈ p.inequalities) :
    rowReading p x y i = ⟨max ((p.constraints *ᵥ x) i - p.bound i) 0, max (-y i) 0,
      p.bound i - (p.constraints *ᵥ x) i⟩ := by
  rw [rowReading, p.mem_inequalities.mp hi, RowReading.of, Scalar.max_exact, Scalar.max_exact]

variable {p x y} in
theorem rowReading_of_equality {i : Fin p.rows} (hi : i ∉ p.inequalities) :
    rowReading p x y i = ⟨|(p.constraints *ᵥ x) i - p.bound i|, 0, 0⟩ := by
  have hkind : p.kindAt i = .equality := by
    rw [p.mem_inequalities] at hi
    cases h : p.kindAt i with
    | equality => rfl
    | inequality => exact absurd h hi
  rw [rowReading, hkind]
  rfl

theorem supNorm_violation :
    supNorm (fun i => (rowReading p x y i).violation) = (reference p x y).primal := by
  show _ = maxOver Finset.univ (rowViolation p x)
  refine supNorm_eq_maxOver (fun i _ => ?_) fun i hi => absurd (Finset.mem_univ i) hi
  unfold rowReading rowViolation
  cases p.kindAt i with
  | equality => exact abs_abs _
  | inequality =>
    rw [RowReading.of, Scalar.max_exact]
    exact abs_of_nonneg (le_max_right _ _)

theorem supNorm_sign : supNorm (fun i => (rowReading p x y i).sign) = (reference p x y).dualSign := by
  show _ = maxOver p.inequalities fun i => max (-y i) 0
  refine supNorm_eq_maxOver (fun i hi => ?_) fun i hi => ?_
  · rw [rowReading_of_inequality hi]
    exact abs_of_nonneg (le_max_right _ _)
  · rw [rowReading_of_equality hi]

theorem supNorm_slack :
    supNorm (fun i => (rowReading p x y i).slack * y i) = (reference p x y).complementarity := by
  show _ = maxOver p.inequalities fun i => |(p.bound i - (p.constraints *ᵥ x) i) * y i|
  refine supNorm_eq_maxOver (fun i hi => ?_) fun i hi => ?_
  · rw [rowReading_of_inequality hi]
  · rw [rowReading_of_equality hi, zero_mul]

end

theorem measure_ofFn (hp : p.Shaped) (x : Fin p.unknowns → K) (y : Fin p.rows → K) :
    measure p (List.ofFn x) (List.ofFn y) ⟨List.ofFn (p.constraints *ᵥ x), List.ofFn (p.hessian *ᵥ x),
      List.ofFn (p.constraintsᵀ *ᵥ y)⟩ = .ok (reference p x y) := by
  have hrows := readRows_ofFn p.kindAt (p.constraints *ᵥ x) p.bound y
  rw [Problem.ofFn_kindAt hp, p.ofFn_bound] at hrows
  have hlinear := Vec.dot_ofFn p.linear x
  rw [p.ofFn_linear] at hlinear
  have hbound := Vec.dot_ofFn p.bound y
  rw [p.ofFn_bound] at hbound
  unfold measure
  dsimp only
  rw [hrows, gradient_ofFn, Checked.ok_bind, List.map_ofFn, Vec.hadamardNorm_ofFn, Checked.ok_bind,
    Vec.dot_ofFn, Checked.ok_bind, hlinear, Checked.ok_bind, hbound, Checked.ok_bind, List.map_ofFn,
    List.map_ofFn, Vec.norm_ofFn, Vec.norm_ofFn, Vec.norm_ofFn]
  simp only [Scalar.max_exact, Scalar.min_exact, Scalar.abs_exact, Scalar.ofNat_exact, Nat.cast_ofNat]
  refine congrArg Except.ok ?_
  rw [reference]
  congr 1
  · exact supNorm_violation p x y
  · exact supNorm_sign p x y
  · exact supNorm_slack p x y

/-! ## What the check answers -/

/-- The comparisons of the measured residuals are the optimality conditions. -/
theorem judges_optimality (p : Problem K) (x : Fin p.unknowns → K) (y : Fin p.rows → K) (tier : Tier) :
    Judges (optimality p x y tier.absolute) (reference p x y) (judge tier
      (scales p.q (List.ofFn y) ⟨List.ofFn (p.constraints *ᵥ x), List.ofFn (p.hessian *ᵥ x),
        List.ofFn (p.constraintsᵀ *ᵥ y)⟩) (reference p x y)) := by
  have hscales : scales p.q (List.ofFn y) ⟨List.ofFn (p.constraints *ᵥ x),
      List.ofFn (p.hessian *ᵥ x), List.ofFn (p.constraintsᵀ *ᵥ y)⟩ =
      ⟨supNorm (p.constraints *ᵥ x), supNorm y, max (supNorm (p.hessian *ᵥ x))
        (max (supNorm p.linear) (supNorm (p.constraintsᵀ *ᵥ y)))⟩ := by
    rw [scales, ← p.ofFn_linear]
    simp only [Vec.norm_ofFn, Scalar.max_exact]
  have hwithin : ∀ (residual size : K) (failure : K → K → Failure K),
      comparison tier residual size failure = within tier.absolute residual size failure := by
    intro residual size failure
    simp only [comparison, within, Scalar.le_exact, decide_eq_true_eq]
    rfl
  have hjudges := judges_judge tier ⟨supNorm (p.constraints *ᵥ x), supNorm y, max (supNorm (p.hessian *ᵥ x))
    (max (supNorm p.linear) (supNorm (p.constraintsᵀ *ᵥ y)))⟩ (reference p x y)
  rw [hscales]
  simp only [comparisons, hwithin, Scalar.le_exact, decide_eq_true_eq, Scalar.max_exact] at hjudges
  exact hjudges

theorem judges_check {p : Problem K} (hp : p.Built) (x y : List K) (tier : Tier) :
    Concludes (check p ⟨some x, some y⟩ tier) (conditions p ⟨some x, some y⟩ tier.absolute)
      (reference p (coords p.unknowns x) (coords p.rows y)) := by
  unfold check admissible
  by_cases hx : x.length = p.unknowns
  · by_cases hy : y.length = p.rows
    · have hproducts := products_ofFn hp.shaped (coords p.unknowns x) (coords p.rows y)
      have hmeasure := measure_ofFn hp.shaped (coords p.unknowns x) (coords p.rows y)
      have hjudge := judges_optimality p (coords p.unknowns x) (coords p.rows y) tier
      rw [ofFn_coords hx, ofFn_coords hy] at hproducts hmeasure
      rw [ofFn_coords hy] at hjudge
      simp only [hx, hy, ne_eq, not_true_eq_false, if_false, Vec.isFinite_exact, Bool.not_true,
        Bool.false_eq_true, hproducts, hmeasure, Checked.ok_bind]
      exact ⟨_, rfl, .cons (by simp) (.cons hx (.cons hy hjudge))⟩
    · simp only [hx, ne_eq, not_true_eq_false, if_false, hy, not_false_eq_true, if_true]
      exact ⟨_, rfl, .cons (by simp) (.cons hx (judges_of_not hy))⟩
  · simp only [ne_eq, hx, not_false_eq_true, if_true]
    exact ⟨_, rfl, .cons (by simp) (judges_of_not hx)⟩

theorem reference_of_check {p : Problem K} (hp : p.Built) {x y : List K} {tier : Tier} {r : Residuals K}
    (h : check p ⟨some x, some y⟩ tier = .ok (.ok r)) :
    x.length = p.unknowns ∧ r = reference p (coords p.unknowns x) (coords p.rows y) := by
  obtain ⟨hall, hr⟩ := (judges_check hp x y tier).eq_ok_iff.mp h
  exact ⟨hall ⟨x.length = p.unknowns, _⟩ (List.mem_cons_of_mem _ List.mem_cons_self), hr⟩

theorem check_absent (p : Problem K) {c : Candidate K} (h : ¬(c.x.isSome ∧ c.y.isSome)) (tier : Tier) :
    check p c tier = .ok (.error .missingSolution) := by
  obtain ⟨x, y⟩ := c
  cases x with
  | none => rfl
  | some x =>
    cases y with
    | none => rfl
    | some y => exact absurd ⟨rfl, rfl⟩ h

theorem absolute_pos (tier : Tier) : (0 : K) < tier.absolute := by
  cases tier <;> simp [Tier.absolute]

/-- **The check accepts exactly if all conditions hold, with the reference residuals, and otherwise
answers with the first that does not.** -/
theorem check_exact {p : Problem K} (hp : p.Built) (c : Candidate K) (tier : Tier) :
    (0 : K) < tier.absolute ∧ ∃ outcome, check p c tier = .ok outcome ∧
      (∀ r, outcome = .ok r ↔ ∃ x y, c = ⟨some x, some y⟩ ∧
        (∀ d ∈ conditions p c tier.absolute, d.holds) ∧
          r = reference p (coords p.unknowns x) (coords p.rows y)) ∧
      ∀ f, outcome = .error f ↔ FirstBroken (conditions p c tier.absolute) f := by
  refine ⟨absolute_pos tier, ?_⟩
  by_cases hpresent : c.x.isSome ∧ c.y.isSome
  · obtain ⟨cx, cy⟩ := c
    obtain ⟨⟨x, hx⟩, y, hy⟩ := hpresent.imp Option.isSome_iff_exists.mp Option.isSome_iff_exists.mp
    dsimp only at hx hy
    subst hx hy
    obtain ⟨outcome, hcheck, hjudges⟩ := judges_check hp x y tier
    refine ⟨outcome, hcheck, fun r => ?_, fun f => hjudges.eq_error_iff⟩
    rw [hjudges.eq_ok_iff]
    constructor
    · rintro ⟨hall, hr⟩
      exact ⟨x, y, rfl, hall, hr⟩
    · rintro ⟨x', y', heq, hall, hr⟩
      cases heq
      exact ⟨hall, hr⟩
  · have hjudges : Judges (conditions p c tier.absolute) (reference p 0 0) (.error .missingSolution) :=
      judges_of_not hpresent
    refine ⟨_, check_absent p hpresent tier, fun r => ⟨fun h => (by cases h), ?_⟩,
      fun f => hjudges.eq_error_iff⟩
    rintro ⟨x, y, rfl, -⟩
    exact absurd ⟨rfl, rfl⟩ hpresent

/-- Minimize `u²` subject to `-u ≤ -1`. -/
def squarePastOne : Problem ℚ where
  P := ⟨1, 1, #[0, 1], #[0], #[2]⟩
  q := [0]
  A := ⟨1, 1, #[0, 1], #[0], #[-1]⟩
  b := [-1]
  blocks := [⟨.inequality, 1⟩]

theorem squarePastOne_built : @Problem.Built ℚ (.exact ℚ) squarePastOne := by
  with_unfolding_all rfl

/-- The solution with its multiplier is accepted; with another multiplier the gradient does not
vanish. -/
theorem check_squarePastOne :
    (@check ℚ (.exact ℚ) squarePastOne ⟨some [1], some [2]⟩ .high = .ok (.ok ⟨0, 0, 0, 0, 1, 1, 0, 0⟩) ∧
      (∀ d ∈ conditions squarePastOne ⟨some [1], some [2]⟩ (@Tier.absolute ℚ (.exact ℚ) .high),
        d.holds) ∧
      reference squarePastOne (coords 1 [1]) (coords 1 [2]) = ⟨0, 0, 0, 0, 1, 1, 0, 0⟩) ∧
    FirstBroken (conditions squarePastOne ⟨some [1], some [1]⟩ (@Tier.absolute ℚ (.exact ℚ) .high))
      (.stationarity 1 (3 / 100000)) := by
  have hrun : @check ℚ (.exact ℚ) squarePastOne ⟨some [1], some [2]⟩ .high =
      .ok (.ok ⟨0, 0, 0, 0, 1, 1, 0, 0⟩) := by
    with_unfolding_all rfl
  have hfail : @check ℚ (.exact ℚ) squarePastOne ⟨some [1], some [1]⟩ .high =
      .ok (.error (.stationarity 1 (3 / 100000))) := by
    with_unfolding_all rfl
  obtain ⟨-, accepted, haccepted, hok, -⟩ := check_exact squarePastOne_built ⟨some [1], some [2]⟩ .high
  obtain ⟨-, refused, hrefused, -, herror⟩ := check_exact squarePastOne_built ⟨some [1], some [1]⟩ .high
  obtain ⟨x, y, hc, hall, hr⟩ := (hok _).mp (Except.ok.inj (haccepted.symm.trans hrun))
  cases hc
  exact ⟨⟨hrun, hall, hr.symm⟩, (herror _).mp (Except.ok.inj (hrefused.symm.trans hfail))⟩

end Kkt

end QpReferee

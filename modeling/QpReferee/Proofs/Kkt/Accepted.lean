import QpReferee.Proofs.Conditions
import QpReferee.Proofs.Kkt.Total
import QpReferee.Proofs.Numbers

/-!
# What an accepted candidate has passed

For any scalars the check accepts only candidates whose vectors are finite, and whose residuals, as they
are measured, are within their tolerances.

* `Kkt.Measured` : how the residuals come from the products.
* `Kkt.Passes`, `Kkt.comparisons` : the comparisons that the residuals pass, and their order.
* `Kkt.accepted_iff` : **the check accepts exactly the admissible candidates whose residuals pass.**
-/

namespace QpReferee.Kkt

variable {T : Type} [Scalar T] {p : Problem T} {x y : List T} {w : Products T} {tier : Tier}
  {s : Scales T} {r : Residuals T}

/-- How the residuals of a candidate come from its products. -/
structure Measured (p : Problem T) (x y : List T) (w : Products T) (r : Residuals T) : Prop where
  primal : r.primal = Vec.norm ((readRows p.rowKinds w.ax p.b y).map (·.violation))
  dualSign : r.dualSign = Vec.norm ((readRows p.rowKinds w.ax p.b y).map (·.sign))
  stationarity : ∃ g, gradient p.q w = .ok g ∧ r.stationarity = Vec.norm g
  complementarity : r.complementarity =
    Vec.norm (Vec.hadamard ((readRows p.rowKinds w.ax p.b y).map (·.slack)) y)
  costs : ∃ curved linear bound, Vec.dot x w.px = .ok curved ∧ Vec.dot p.q x = .ok linear ∧
    Vec.dot p.b y = .ok bound ∧ r.costPrimal = curved / Scalar.ofNat 2 + linear ∧
      r.costDual = -(curved / Scalar.ofNat 2) - bound
  gapAbsolute : r.gapAbsolute = Scalar.abs (r.costPrimal - r.costDual)
  gapRelative : r.gapRelative = r.gapAbsolute /
    Scalar.max 1 (Scalar.min (Scalar.abs r.costPrimal) (Scalar.abs r.costDual))

theorem measured_of_measure (h : measure p x y w = .ok r) : Measured p x y w r := by
  unfold measure at h
  dsimp only at h
  obtain ⟨g, hg, h⟩ := Checked.bind_eq_ok.mp h
  obtain ⟨comp, hcomp, h⟩ := Checked.bind_eq_ok.mp h
  obtain ⟨curved, hcurved, h⟩ := Checked.bind_eq_ok.mp h
  obtain ⟨linear, hlinear, h⟩ := Checked.bind_eq_ok.mp h
  obtain ⟨bound, hbound, h⟩ := Checked.bind_eq_ok.mp h
  obtain ⟨_, -, hcomp⟩ := Checked.bind_eq_ok.mp hcomp
  cases h
  exact {
    primal := rfl
    dualSign := rfl
    stationarity := ⟨g, hg, rfl⟩
    complementarity := (Except.ok.inj hcomp).symm
    costs := ⟨curved, linear, bound, hcurved, hlinear, hbound, rfl, rfl⟩
    gapAbsolute := rfl
    gapRelative := rfl }

theorem gradient_parts {P : T → Prop} (hP : Inherited P) {q g : List T}
    (h : gradient q w = .ok g) (hg : ∀ a ∈ g, P a) : (∀ a ∈ w.px, P a) ∧ ∀ a ∈ w.aty, P a := by
  obtain ⟨half, hhalf, hsum⟩ := Checked.bind_eq_ok.mp h
  obtain ⟨haty, hfinite⟩ := hP.combine hsum hg
  exact ⟨(hP.combine hhalf hfinite).2, haty⟩

/-- The comparisons that the residuals of an accepted candidate pass. -/
structure Passes (tier : Tier) (s : Scales T) (r : Residuals T) : Prop where
  primal : Scalar.le r.primal (toleranceAt tier s.ax) = true
  dualSign : Scalar.le r.dualSign (toleranceAt tier s.y) = true
  stationarity : Scalar.le r.stationarity (toleranceAt tier s.gradient) = true
  complementarity : Scalar.le r.complementarity (toleranceAt tier (Scalar.max s.ax s.y)) = true
  gap : Scalar.le r.gapAbsolute tier.absolute = true ∨ Scalar.le r.gapRelative tier.relative = true

/-- A residual is within the tolerance for a size. -/
def comparison (tier : Tier) (residual size : T) (failure : T → T → Failure T) : Condition (Failure T) :=
  ⟨Scalar.le residual (toleranceAt tier size) = true, failure residual (toleranceAt tier size)⟩

/-- The comparisons of the residuals, in order. -/
def comparisons (tier : Tier) (s : Scales T) (r : Residuals T) : List (Condition (Failure T)) :=
  [comparison tier r.primal s.ax .primalResidual,
    comparison tier r.dualSign s.y .dualSign,
    comparison tier r.stationarity s.gradient .stationarity,
    comparison tier r.complementarity (Scalar.max s.ax s.y) .complementarity,
    ⟨Scalar.le r.gapAbsolute tier.absolute = true ∨ Scalar.le r.gapRelative tier.relative = true,
      .dualityGap r.gapAbsolute r.gapRelative tier.absolute⟩]

theorem passes_iff : Passes tier s r ↔ ∀ c ∈ comparisons tier s r, c.holds := by
  constructor
  · intro h
    simp only [comparisons, List.forall_mem_cons]
    exact ⟨h.primal, h.dualSign, h.stationarity, h.complementarity, h.gap, by simp⟩
  · intro h
    simp only [comparisons, List.forall_mem_cons] at h
    obtain ⟨hprimal, hsign, hstationarity, hcomplementarity, hgap, -⟩ := h
    exact ⟨hprimal, hsign, hstationarity, hcomplementarity, hgap⟩

theorem judges_compare {l : List (Condition (Failure T))} {residual size : T}
    {failure : T → T → Failure T} {rest : Unit → Except (Failure T) (Residuals T)}
    (h : Judges l r (rest ())) : Judges (comparison tier residual size failure :: l) r
      (judge.compare tier residual size failure >>= rest) := by
  unfold judge.compare
  by_cases hle : Scalar.le residual (toleranceAt tier size) = true
  · rw [if_pos hle]
    exact h.cons hle
  · rw [if_neg hle]
    exact judges_of_not (c := comparison tier residual size failure) hle

theorem judges_judge (tier : Tier) (s : Scales T) (r : Residuals T) :
    Judges (comparisons tier s r) r (judge tier s r) := by
  unfold judge comparisons
  refine judges_compare (judges_compare (judges_compare (judges_compare ?_)))
  -- the gap is compared twice, and either comparison is enough
  by_cases hgap : (Scalar.le r.gapAbsolute tier.absolute || Scalar.le r.gapRelative tier.relative) = true
  · rw [if_pos hgap]
    rw [Bool.or_eq_true] at hgap
    exact judges_nil.cons hgap
  · rw [if_neg hgap]
    rw [Bool.or_eq_true] at hgap
    exact judges_of_not hgap

theorem judge_eq_ok {r' : Residuals T} : judge tier s r = .ok r' ↔ Passes tier s r ∧ r' = r := by
  rw [(judges_judge tier s r).eq_ok_iff, passes_iff]

theorem admissible_eq_ok {c : Candidate T} : admissible p c = .ok (x, y) ↔ c = ⟨some x, some y⟩ ∧
    x.length = p.unknowns ∧ y.length = p.rows ∧ Vec.isFinite x = true ∧ Vec.isFinite y = true := by
  constructor
  · intro h
    obtain ⟨hc, hx, hy⟩ := lengths_of_admissible h
    subst hc
    unfold admissible at h
    dsimp only at h
    rw [if_neg (not_not.mpr hx), if_neg (not_not.mpr hy)] at h
    split_ifs at h with hfx hfy
    exact ⟨rfl, hx, hy, by simpa using hfx, by simpa using hfy⟩
  · rintro ⟨rfl, hx, hy, hfx, hfy⟩
    unfold admissible
    simp [hx, hy, hfx, hfy]

/-- **The check accepts exactly the admissible candidates whose residuals pass.** -/
theorem accepted_iff {c : Candidate T} : check p c tier = .ok (.ok r) ↔
    ∃ x y w, admissible p c = .ok (x, y) ∧ products p x y = .ok w ∧ measure p x y w = .ok r ∧
      Passes tier (scales p.q y w) r := by
  constructor
  · intro h
    cases hc : admissible p c with
    | error failure => cases h.symm.trans (check_of_refused hc tier)
    | ok xy =>
      obtain ⟨x, y⟩ := xy
      unfold check at h
      rw [hc] at h
      obtain ⟨w, hw, h⟩ := Checked.bind_eq_ok.mp h
      obtain ⟨r', hr, h⟩ := Checked.bind_eq_ok.mp h
      obtain ⟨hpasses, rfl⟩ := judge_eq_ok.mp (Except.ok.inj h)
      exact ⟨x, y, w, rfl, hw, hr, hpasses⟩
  · rintro ⟨x, y, w, hc, hw, hr, hpasses⟩
    rw [check_of_measure hc hw hr, judge_eq_ok.mpr ⟨hpasses, rfl⟩]

theorem exists_accepted {c : Candidate T} {test : Residuals T → Bool}
    (h : ((check p c tier).toOption.bind Except.toOption).any test = true) :
    ∃ r, check p c tier = .ok (.ok r) ∧ test r = true := by
  cases hcheck : check p c tier with
  | error fault =>
    rw [hcheck] at h
    cases h
  | ok outcome =>
    rw [hcheck] at h
    cases outcome with
    | error failure => cases h
    | ok r => exact ⟨r, rfl, h⟩

end QpReferee.Kkt

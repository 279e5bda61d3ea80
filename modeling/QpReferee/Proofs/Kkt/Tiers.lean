import QpReferee.Proofs.Ieee.Vectors
import QpReferee.Proofs.Kkt.Reference

/-!
# The tiers of the check

A residual within the tolerance of the high tier is within that of the standard tier. The size that both
are relative to is a norm, which is not below zero or is no number; in the second case neither tolerance is
a number, and both comparisons fail.

* `Size` : what a norm can be.
* `le_toleranceAt_standard` : a comparison of the high tier passes at the standard tier.
* `stricter_comparisons` : so the comparisons of the high tier are stricter than those of the standard tier.
* `tiers_monotone` : **what the high tier accepts, the standard tier accepts with the same residuals, and
  where the standard tier fails, the high tier fails no later.**
-/

namespace QpReferee

/-- The place of the check that a failure comes from, in the order of the checks. -/
def Failure.stage {T : Type} : Failure T → ℕ
  | .missingSolution => 0
  | .badLength .. => 1
  | .nonFinite _ => 2
  | .primalResidual .. => 3
  | .dualSign .. => 4
  | .stationarity .. => 5
  | .complementarity .. => 6
  | .dualityGap .. => 7

namespace Kkt

variable {T : Type} [Scalar T]

theorem stages_ascend (tier : Tier) (s : Scales T) (r : Residuals T) :
    (comparisons tier s r).Pairwise fun c d => c.failure.stage ≤ d.failure.stage := by
  simp [comparisons, comparison, Failure.stage]

variable [OrderedScalar T]

/-- A number that is not below zero, or no number. -/
def Size (a : T) : Prop := Scalar.isNaN a = true ∨ Scalar.le 0 a = true

theorem size_norm (v : List T) : Size (Vec.norm v) := by
  by_cases h : Scalar.isNaN (Vec.norm v) = true
  · exact .inl h
  · exact .inr (Vec.zero_le_norm (Bool.eq_false_iff.mpr h))

theorem size_max {a b : T} (ha : Size a) (hb : Size b) : Size (Scalar.max a b) := by
  rcases ha with ha | ha
  · unfold Scalar.max
    rw [if_pos ha]
    exact hb
  · rcases hb with hb | hb
    · unfold Scalar.max
      rw [(OrderedScalar.isNaN_of_le ha).2, if_neg Bool.false_ne_true, if_pos hb]
      exact .inr ha
    · exact .inr (Scalar.zero_le_max ha hb)

variable [OrderedTiers T]

theorem toleranceAt_le {size : T} (hsize : Size size)
    (hnumber : Scalar.isNaN (toleranceAt .high size) = false) :
    Scalar.le (toleranceAt .high size) (toleranceAt .standard size) = true := by
  have hproduct := (OrderedScalar.isNaN_of_add hnumber).2
  -- a size that is no number would make the tolerance none
  have hpos : Scalar.le 0 size = true := by
    refine hsize.resolve_left fun hnan => ?_
    rw [(OrderedScalar.isNaN_of_mul hproduct).2] at hnan
    cases hnan
  have hrelative : Scalar.le 0 (Tier.high.absolute * size) = true :=
    OrderedScalar.zero_le_mul (OrderedTiers.zero_le_absolute .high) (OrderedTiers.isFinite_absolute .high)
      hpos hproduct
  have hproducts : Scalar.le (Tier.high.absolute * size) (Tier.standard.absolute * size) = true :=
    OrderedScalar.mul_le_mul (OrderedTiers.zero_le_absolute .high) OrderedTiers.high_le_standard
      (OrderedTiers.isFinite_absolute .standard) hpos hproduct
  exact OrderedScalar.add_le_add (OrderedTiers.zero_le_absolute .high) OrderedTiers.high_le_standard
    hrelative hproducts

theorem le_toleranceAt_standard {residual size : T} (hsize : Size size)
    (h : Scalar.le residual (toleranceAt .high size) = true) :
    Scalar.le residual (toleranceAt .standard size) = true :=
  OrderedScalar.le_trans h (toleranceAt_le hsize (OrderedScalar.isNaN_of_le h).2)

theorem stricter_comparisons (q y : List T) (w : Products T) (r : Residuals T) :
    Stricter Failure.stage (comparisons .high (scales q y w) r)
      (comparisons .standard (scales q y w) r) := by
  have hle : Scalar.le (Tier.high.absolute : T) Tier.standard.absolute = true :=
    OrderedTiers.high_le_standard
  have hax := size_norm w.ax
  have hy := size_norm y
  have hgradient := size_max (size_norm w.px) (size_max (size_norm q) (size_norm w.aty))
  refine .cons ⟨le_toleranceAt_standard hax, rfl⟩ ?_
  refine .cons ⟨le_toleranceAt_standard hy, rfl⟩ ?_
  refine .cons ⟨le_toleranceAt_standard hgradient, rfl⟩ ?_
  refine .cons ⟨le_toleranceAt_standard (size_max hax hy), rfl⟩ ?_
  refine .cons ⟨?_, rfl⟩ .nil
  -- both comparisons of the gap are with constants
  rintro (habsolute | hrelative)
  · exact .inl (OrderedScalar.le_trans habsolute hle)
  · exact .inr (OrderedScalar.le_trans hrelative hle)

theorem judge_tiers (q y : List T) (w : Products T) (r : Residuals T) :
    (∀ r', judge .high (scales q y w) r = .ok r' → judge .standard (scales q y w) r = .ok r') ∧
      ∀ f, judge .standard (scales q y w) r = .error f →
        ∃ g, judge .high (scales q y w) r = .error g ∧ g.stage ≤ f.stage :=
  (judges_judge .high _ r).no_later (judges_judge .standard _ r) (stricter_comparisons q y w r)
    (stages_ascend .high _ r)

variable {p : Problem T} {c : Candidate T}

theorem check_standard_of_high {r : Residuals T} (h : check p c .high = .ok (.ok r)) :
    check p c .standard = .ok (.ok r) := by
  obtain ⟨x, y, w, hadmitted, hw, hr, hpasses⟩ := accepted_iff.mp h
  have hjudge := (judge_tiers p.q y w r).1 r (judge_eq_ok.mpr ⟨hpasses, rfl⟩)
  exact accepted_iff.mpr ⟨x, y, w, hadmitted, hw, hr, (judge_eq_ok.mp hjudge).1⟩

/-- **What the high tier accepts, the standard tier accepts with the same residuals; and where the
standard tier fails, the high tier fails at the same check or at one before it.** -/
theorem tiers_monotone (hp : p.Built) (c : Candidate T) :
    (∀ r, check p c .high = .ok (.ok r) → check p c .standard = .ok (.ok r)) ∧
      ∀ f, check p c .standard = .ok (.error f) →
        ∃ g, check p c .high = .ok (.error g) ∧ g.stage ≤ f.stage := by
  refine ⟨fun r h => check_standard_of_high h, fun f h => ?_⟩
  rcases refused_or_judged hp c with ⟨failure, hrefused⟩ | ⟨y, w, r, hjudged⟩
  · cases h.symm.trans (hrefused .standard)
    exact ⟨f, hrefused .high, Nat.le_refl _⟩
  · rw [hjudged] at h ⊢
    obtain ⟨g, hg, hle⟩ := (judge_tiers p.q y w r).2 f (Except.ok.inj h)
    exact ⟨g, congrArg Except.ok hg, hle⟩

/-- The solution of `squarePastOne` passes at both tiers. With a slightly smaller unknown and half the
multiplier the standard tier only misses the gradient; the high tier misses the bound before that. -/
theorem squarePastOne_tiers :
    @check ℚ (.exact ℚ) squarePastOne ⟨some [1], some [2]⟩ .standard =
        .ok (.ok ⟨0, 0, 0, 0, 1, 1, 0, 0⟩) ∧
      ∃ g, @check ℚ (.exact ℚ) squarePastOne ⟨some [9999 / 10000], some [1]⟩ .high = .ok (.error g) ∧
        g.stage ≤ 5 ∧ g.stage = 3 := by
  have hsolution : @check ℚ (.exact ℚ) squarePastOne ⟨some [1], some [2]⟩ .high =
      .ok (.ok ⟨0, 0, 0, 0, 1, 1, 0, 0⟩) := by
    with_unfolding_all rfl
  have hstandard : @check ℚ (.exact ℚ) squarePastOne ⟨some [9999 / 10000], some [1]⟩ .standard =
      .ok (.error (.stationarity (4999 / 5000) (14999 / 5000000))) := by
    with_unfolding_all rfl
  have hhigh : @check ℚ (.exact ℚ) squarePastOne ⟨some [9999 / 10000], some [1]⟩ .high =
      .ok (.error (.primalResidual (1 / 10000) (19999 / 1000000000))) := by
    with_unfolding_all rfl
  have hmonotone := @tiers_monotone ℚ (.exact ℚ) _ _ squarePastOne squarePastOne_built
  obtain ⟨haccepted, -⟩ := hmonotone ⟨some [1], some [2]⟩
  obtain ⟨-, hrefused⟩ := hmonotone ⟨some [9999 / 10000], some [1]⟩
  obtain ⟨g, hg, hle⟩ := hrefused _ hstandard
  refine ⟨haccepted _ hsolution, g, hg, hle, ?_⟩
  cases Except.ok.inj (hhigh.symm.trans hg)
  rfl

end Kkt

end QpReferee

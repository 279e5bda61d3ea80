import QpReferee.Proofs.Ieee.Special
import QpReferee.Proofs.Kkt.Accepted
import QpReferee.Proofs.Problem.Blocks

/-!
# The cost of an accepted candidate

The check measures the primal cost from a product it has anyway, and divides by two. The objective takes the
product itself, and multiplies by one half. Where the two agree on every scalar, so do the costs, with every
rounding and every overflow on the way. They agree in exact arithmetic and in both floating point types: one
half is a number of either format, so a quotient by two and a product with one half round the same value.

* `Halves` : to divide by two is to multiply by one half.
* `halves_double`, `halves_single` : floating point numbers.
* `Kkt.cost_is_objective` : **the primal cost of an accepted candidate is the objective at its point.**
-/

namespace QpReferee

open Float.Model (Format UnpackedFloat)
open Float.Model.UnpackedFloat
open Ieee

/-- One half, as the objective computes it. -/
def Scalar.half (T : Type) [Scalar T] : T := 1 / Scalar.ofNat 2

/-- To divide by two is to multiply by one half. -/
def Halves (T : Type) [Scalar T] : Prop := ∀ a : T, a / Scalar.ofNat 2 = Scalar.half T * a

theorem halves_exact (K : Type) [OrderedField K] : Halves K := by
  intro a
  rw [Scalar.half, div_mul_eq_mul_div, one_mul]

/-! ## Floating point numbers -/

theorem two_double : (Scalar.ofNat 2 : Float) = .ofBits 0x4000000000000000 := by
  have hword : BinaryFormat.binary64.nearest 2 1 = 0x4000000000000000 := by decide +kernel
  exact congrArg (fun n => Float.ofBits (UInt64.ofNat n)) hword

theorem half_double : Scalar.half Float = .ofBits 0x3fe0000000000000 := by
  rw [Scalar.half, two_double]
  with_unfolding_all rfl

theorem halves_double : Halves Float := by
  intro a
  have hrange : InRange .binary64 (2 ^ 52) (-53) := by constructor <;> decide
  have hquotient := div_eq_mul_inverse (m := 2 ^ 52) (n := 2 ^ 52) (e := -53) (f := -51) (by decide) (by decide)
    hrange (by norm_num) (IeeeScalar.canonical a)
  rw [half_double, two_double]
  exact congrArg (fun u => Float.ofModel (Float.Model.pack u)) hquotient

theorem two_single : (Scalar.ofNat 2 : Float32) = .ofBits 0x40000000 := by
  have hword : BinaryFormat.binary32.nearest 2 1 = 0x40000000 := by decide +kernel
  exact congrArg (fun n => Float32.ofBits (UInt32.ofNat n)) hword

theorem half_single : Scalar.half Float32 = .ofBits 0x3f000000 := by
  rw [Scalar.half, two_single]
  with_unfolding_all rfl

theorem halves_single : Halves Float32 := by
  intro a
  have hrange : InRange .binary32 (2 ^ 23) (-24) := by constructor <;> decide
  have hquotient := div_eq_mul_inverse (m := 2 ^ 23) (n := 2 ^ 23) (e := -24) (f := -22) (by decide) (by decide)
    hrange (by norm_num) (IeeeScalar.canonical a)
  rw [half_single, two_single]
  exact congrArg (fun u => Float32.ofModel (Float32.Model.pack u)) hquotient

/-! ## The two costs -/

namespace Kkt

section

variable {T : Type} [Scalar T] {p : Problem T} {x y : List T} {w : Products T} {r : Residuals T}

theorem curvature_of_products (h : products p x y = .ok w) : p.curvature x = .ok w.px := by
  obtain ⟨ax, -, h⟩ := Checked.bind_eq_ok.mp h
  obtain ⟨px, hpx, h⟩ := Checked.bind_eq_ok.mp h
  obtain ⟨aty, -, h⟩ := Checked.bind_eq_ok.mp h
  cases h
  exact hpx

theorem objective_of_measured (hT : Halves T) (hw : products p x y = .ok w) (hr : Measured p x y w r) :
    p.objective x = .ok r.costPrimal := by
  obtain ⟨curved, linear, bound, hcurved, hlinear, -, hcost, -⟩ := hr.costs
  unfold Problem.objective
  rw [curvature_of_products hw, Checked.ok_bind, hcurved, Checked.ok_bind, hlinear, hcost, hT curved]
  rfl

end

/-- **The primal cost of an accepted candidate is the objective at its point**, for all scalars in which to
divide by two is to multiply by one half: those of exact arithmetic and both floating point types. -/
theorem cost_is_objective :
    (∀ (T : Type) [Scalar T], Halves T → ∀ p : Problem T, p.Built → ∀ (c : Candidate T) (tier : Tier)
      (r : Residuals T), check p c tier = .ok (.ok r) →
        ∃ x y, c = ⟨some x, some y⟩ ∧ p.objective x = .ok r.costPrimal) ∧
    (∀ (K : Type) [OrderedField K], Halves K) ∧ Halves ℚ ∧ Halves Float ∧ Halves Float32 := by
  refine ⟨fun T _ hT p _ c tier r h => ?_, halves_exact, Scalar.exact_rat ▸ halves_exact ℚ, halves_double,
    halves_single⟩
  obtain ⟨x, y, w, hc, hw, hr, -⟩ := accepted_iff.mp h
  exact ⟨x, y, (admissible_eq_ok.mp hc).1, objective_of_measured hT hw (measured_of_measure hr)⟩

/-- The point of least cost of three rows is accepted with its multipliers, at its objective, which is one. -/
theorem threeRows_cost : Halves Float ∧ Problem.threeRows.Built ∧
    ∃ r, check Problem.threeRows ⟨some [1], some [-2, 0, 0]⟩ .high = .ok (.ok r) ∧
      Problem.threeRows.objective [1] = .ok r.costPrimal ∧ Scalar.eq r.costPrimal 1 = true := by
  obtain ⟨hcost, -, -, hdouble, -⟩ := cost_is_objective
  have hrun : ((check Problem.threeRows ⟨some [1], some [-2, 0, 0]⟩ .high).toOption.bind Except.toOption).any
      (fun r => Scalar.eq r.costPrimal 1) = true := by
    decide +kernel
  obtain ⟨r, hr, hone⟩ := exists_accepted hrun
  obtain ⟨x, y, hc, hobjective⟩ := hcost Float hdouble _ Problem.threeRows_built _ _ r hr
  cases hc
  exact ⟨hdouble, Problem.threeRows_built, r, hr, hobjective, hone⟩

end Kkt

end QpReferee

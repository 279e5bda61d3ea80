import QpReferee.Proofs.Problem.Program
import QpReferee.Proofs.Sparse.General

/-!
# The symmetric product

The symmetric product goes over the stored entries once and adds each of them at two places, so inside a
column the result is half updated: the entries passed so far have reached their own rows, and as a row they
have reached the column's own entry. Summed over all columns this is the product with `D + Dᵀ`, in which the
diagonal counts once. If nothing is stored below the diagonal, it is the product with the one symmetric
matrix whose upper triangle is stored.

* `Csc.eq_mirrored` : there is only one such matrix.
* `Csc.symmetric_products` : **the symmetric product is the general one of the full matrix**, and the
  objective is a quadratic form in it.
-/

namespace QpReferee

open Matrix

namespace Csc

section

variable {T : Type} [Scalar T] {A : Csc T} {x y : List T}

theorem symv_stops (h : x.length ≠ A.cols ∨ y.length ≠ A.cols) (a b : T) :
    A.symv y x a b = .error .length := by
  unfold symv
  by_cases hsquare : A.rows = A.cols
  · rw [demand_of hsquare, Checked.ok_bind]
    exact demands_stop h .length _
  · rw [demand_of_not hsquare]
    rfl

end

variable {K : Type} [OrderedField K] {A : Csc K} {n : ℕ}

theorem eq_mirrored {S : Matrix (Fin n) (Fin n) K} (hsymmetric : Sᵀ = S)
    (hupper : ∀ i j, i ≤ j → S i j = A.dense n n i j) : S = A.mirrored n := by
  ext i j
  rw [mirrored]
  rcases le_total i j with h | h
  · have hval : i.val ≤ j.val := h
    rw [hupper i j h, min_eq_left hval, max_eq_right hval]
    rfl
  · have hval : j.val ≤ i.val := h
    rw [← hsymmetric, transpose_apply, hupper j i h, min_eq_right hval, max_eq_left hval]
    rfl

theorem WellFormed.isProduct_symv (hA : A.WellFormed) (hrows : A.rows = n) (hcols : A.cols = n) :
    IsProduct A.symv (A.dense n n + (A.dense n n)ᵀ - diagonal (A.dense n n).diag) := by
  apply IsProduct.of_ofFn
  · intro y x h
    rw [← hcols] at h
    exact symv_stops h
  · exact hA.symv_ofFn hrows hcols

theorem upperSymv_eq_gemv (hA : A.WellFormed) (hrows : A.rows = n) (hcols : A.cols = n)
    (hupper : A.isUpper = .ok true) {F : Csc K} (hF : F.WellFormed) (hFrows : F.rows = n)
    (hFcols : F.cols = n) (hfull : F.dense n n = A.mirrored n) : A.upperSymv = F.gemv := by
  funext y x a b
  by_cases hlengths : x.length = n ∧ y.length = n
  · obtain ⟨hx, hy⟩ := hlengths
    have hleft := hA.upperSymv_ofFn hrows hcols hupper (coords n x) (coords n y) a b
    have hright := hF.gemv_ofFn hFrows hFcols (coords n x) (coords n y) a b
    rw [hfull] at hright
    rw [ofFn_coords hx, ofFn_coords hy] at hleft hright
    rw [hleft, hright]
  · rw [not_and_or] at hlengths
    rw [upperSymv_eq_symv hupper, symv_stops (by rwa [hcols]), gemv_stops (by rwa [hFcols, hFrows])]

/-- **The symmetric product is the general one of the full matrix.** On a square matrix in format it is the
product with `D + Dᵀ` in which the diagonal counts once. If nothing is stored below the diagonal, and `S` is
the symmetric matrix with this upper triangle, it is the product of every matrix that stores `S`, and the
objective of a problem with this hessian is `½ xᵀSx + qᵀx`. -/
theorem symmetric_products (h : A.checkFormat = .ok (.ok ())) (hrows : A.rows = n) (hcols : A.cols = n) :
    IsProduct A.symv (A.dense n n + (A.dense n n)ᵀ - diagonal (A.dense n n).diag) ∧
      (A.Upper → ∀ S : Matrix (Fin n) (Fin n) K, Sᵀ = S → (∀ i j, i ≤ j → S i j = A.dense n n i j) →
        (∀ F : Csc K, F.checkFormat = .ok (.ok ()) → F.rows = n → F.cols = n → F.dense n n = S →
          A.upperSymv = F.gemv) ∧
        ∀ p : Problem K, p.P = A → p.unknowns = n → ∀ x, x.length = n → p.objective x =
          .ok (coords n x ⬝ᵥ S *ᵥ coords n x / 2 + coords n p.q ⬝ᵥ coords n x)) := by
  have hA := wellFormed_of_checkFormat h
  refine ⟨hA.isProduct_symv hrows hcols, ?_⟩
  intro hupper S hsymmetric htriangle
  have hisUpper := hA.ranged.isUpper_iff.mpr hupper
  have hfull := eq_mirrored hsymmetric htriangle
  refine ⟨?_, ?_⟩
  · intro F hF hFrows hFcols hstored
    exact upperSymv_eq_gemv hA hrows hcols hisUpper (wellFormed_of_checkFormat hF) hFrows hFcols
      (hstored.trans hfull)
  · intro p hp hunknowns x hx
    subst hp hunknowns hfull
    have hobjective := Problem.objective_of_triangle hA hrows hcols hisUpper (coords p.unknowns x)
    rwa [ofFn_coords hx] at hobjective

/-- The triangle of a symmetric matrix. -/
def corner : Csc ℚ := ⟨2, 2, #[0, 1, 3], #[0, 0, 1], #[4, 1, 2]⟩

def squared : Csc ℚ := ⟨2, 2, #[0, 2, 4], #[0, 1, 0, 1], #[4, 1, 1, 2]⟩

/-- An entry off the diagonal counts twice, and those on it once. -/
theorem corner_products :
    corner.checkFormat = .ok (.ok ()) ∧ corner.Upper ∧ squared.checkFormat = .ok (.ok ()) ∧
    @symv ℚ (.exact ℚ) corner [1, 1] [1, 2] 2 3 = .ok [15, 13] ∧
    @upperSymv ℚ (.exact ℚ) corner = @gemv ℚ (.exact ℚ) squared ∧
    ∀ p : Problem ℚ, p.P = corner → p.q = [1, 0] → @Problem.objective ℚ (.exact ℚ) p [1, 2] = .ok 9 := by
  have hformat : corner.checkFormat = .ok (.ok ()) := by with_unfolding_all rfl
  have hsquared : squared.checkFormat = .ok (.ok ()) := by with_unfolding_all rfl
  have hupper : corner.Upper := (wellFormed_of_checkFormat hformat).ranged.isUpper_iff.mp (by rfl)
  have hsymmetric : (squared.dense 2 2)ᵀ = squared.dense 2 2 := by
    have h : ∀ i j : Fin 2, squared.entry j i = squared.entry i j := by decide +kernel
    ext i j
    exact h i j
  have htriangle : ∀ i j, i ≤ j → squared.dense 2 2 i j = corner.dense 2 2 i j := by
    have h : ∀ i j : Fin 2, i ≤ j → squared.entry i j = corner.entry i j := by decide +kernel
    exact h
  obtain ⟨hproduct, hfull⟩ := symmetric_products hformat rfl rfl
  obtain ⟨hgemv, hobjective⟩ := hfull hupper _ hsymmetric htriangle
  refine ⟨hformat, hupper, hsquared, ?_, hgemv squared hsquared rfl rfl rfl, ?_⟩
  · rw [hproduct.eq_ok 2 3 rfl rfl]
    exact congrArg Except.ok (by decide +kernel)
  · intro p hP hq
    rw [hobjective p hP (by rw [Problem.unknowns, hq]; rfl) [1, 2] rfl, hq]
    exact congrArg Except.ok (by decide +kernel)

end Csc

end QpReferee

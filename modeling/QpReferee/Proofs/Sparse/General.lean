import QpReferee.Proofs.Sparse.Dense

/-!
# General products

The product with a matrix scatters its columns over the result, the product with its transpose gathers each
column in one entry. The two loops have nothing in common, yet both update a vector by the one dense matrix
of the columns, and both stop exactly at vectors of other lengths. So each is the adjoint of the other.

* `IsProduct` : updates by a dense matrix, which stop where the lengths do not fit.
* `IsProduct.dot_eq` : updates by a matrix and by its transpose are adjoint.
* `Csc.general_products` : **the two products of a matrix in format are those of its dense matrix.**
-/

namespace QpReferee

open Matrix

section

variable {T : Type} [Scalar T] {A : Csc T} {x y : List T}

theorem Csc.gemv_stops (h : x.length ≠ A.cols ∨ y.length ≠ A.rows) (a b : T) :
    A.gemv y x a b = .error .length :=
  demands_stop h .length _

theorem Csc.gemvT_stops (h : x.length ≠ A.rows ∨ y.length ≠ A.cols) (a b : T) :
    A.gemvT y x a b = .error .length :=
  demands_stop h .length _

end

variable {K : Type} [OrderedField K] {m n : ℕ} {D : Matrix (Fin m) (Fin n) K}
  {update : List K → List K → K → K → Checked (List K)}

/-- The update makes `a · D · x + b · y` of a vector `y`, and stops exactly if the vectors `x` and `y` have
other lengths than the matrix asks for. -/
structure IsProduct (update : List K → List K → K → K → Checked (List K)) (D : Matrix (Fin m) (Fin n) K) :
    Prop where
  stops_iff (y x : List K) (a b : K) :
    (∃ fault, update y x a b = .error fault) ↔ x.length ≠ n ∨ y.length ≠ m
  eq_ok {y x : List K} (a b : K) : x.length = n → y.length = m →
    update y x a b = .ok (List.ofFn fun i => a * (D *ᵥ coords n x) i + b * coords m y i)

namespace IsProduct

theorem of_ofFn
    (hstops : ∀ y x : List K, x.length ≠ n ∨ y.length ≠ m → ∀ a b, update y x a b = .error .length)
    (hupdate : ∀ (x : Fin n → K) (y : Fin m → K) (a b : K),
      update (List.ofFn y) (List.ofFn x) a b = .ok (List.ofFn fun i => a * (D *ᵥ x) i + b * y i)) :
    IsProduct update D := by
  have heq : ∀ {y x : List K} (a b : K), x.length = n → y.length = m →
      update y x a b = .ok (List.ofFn fun i => a * (D *ᵥ coords n x) i + b * coords m y i) := by
    intro y x a b hx hy
    have h := hupdate (coords n x) (coords m y) a b
    rwa [ofFn_coords hx, ofFn_coords hy] at h
  refine ⟨fun y x a b => ⟨?_, fun h => ⟨_, hstops y x h a b⟩⟩, heq⟩
  rintro ⟨fault, hfault⟩
  by_contra hlengths
  rw [not_or, not_not, not_not] at hlengths
  cases hfault.symm.trans (heq a b hlengths.1 hlengths.2)

theorem fresh (h : IsProduct update D) {y x : List K} (hx : x.length = n) (hy : y.length = m) :
    update y x 1 0 = .ok (List.ofFn (D *ᵥ coords n x)) := by
  have heq := h.eq_ok 1 0 hx hy
  simp only [one_mul, zero_mul, add_zero] at heq
  exact heq

/-- **Updates by a matrix and by its transpose are adjoint.** -/
theorem dot_eq {update' : List K → List K → K → K → Checked (List K)} (h : IsProduct update D)
    (h' : IsProduct update' Dᵀ) {x y old old' : List K} (hx : x.length = n) (hy : y.length = m)
    (hold : old.length = m) (hold' : old'.length = n) :
    ∃ image preimage d, update old x 1 0 = .ok image ∧ update' old' y 1 0 = .ok preimage ∧
      Vec.dot image y = .ok d ∧ Vec.dot x preimage = .ok d := by
  have hleft := Vec.dot_ofFn (D *ᵥ coords n x) (coords m y)
  have hright := Vec.dot_ofFn (coords n x) (Dᵀ *ᵥ coords m y)
  rw [ofFn_coords hy] at hleft
  rw [ofFn_coords hx] at hright
  have hadjoint : coords n x ⬝ᵥ (Dᵀ *ᵥ coords m y) = (D *ᵥ coords n x) ⬝ᵥ coords m y := by
    rw [dotProduct_mulVec, vecMul_transpose]
  rw [hadjoint] at hright
  exact ⟨_, _, _, h.fresh hx hold, h'.fresh hy hold', hleft, hright⟩

end IsProduct

namespace Csc

variable {A : Csc K}

theorem WellFormed.isProduct_gemv (hA : A.WellFormed) : IsProduct A.gemv (A.dense A.rows A.cols) :=
  .of_ofFn (fun _ _ h => gemv_stops h) fun x y a b => hA.gemv_ofFn rfl rfl x y a b

theorem WellFormed.isProduct_gemvT (hA : A.WellFormed) : IsProduct A.gemvT (A.dense A.rows A.cols)ᵀ :=
  .of_ofFn (fun _ _ h => gemvT_stops h) fun x y a b => hA.gemvT_ofFn rfl rfl x y a b

/-- **The two products of a matrix in format are those of its dense matrix**, for all vectors and all
scalars: they stop exactly at vectors of other lengths, and otherwise update by the dense matrix and by its
transpose. So `⟨Mx, y⟩ = ⟨x, Mᵀy⟩`, whatever vectors the products are written over. -/
theorem general_products (h : A.checkFormat = .ok (.ok ())) :
    IsProduct A.gemv (A.dense A.rows A.cols) ∧ IsProduct A.gemvT (A.dense A.rows A.cols)ᵀ ∧
      ∀ x y old old' : List K, x.length = A.cols → y.length = A.rows → old.length = A.rows →
        old'.length = A.cols →
        ∃ image preimage d, A.gemv old x 1 0 = .ok image ∧ A.gemvT old' y 1 0 = .ok preimage ∧
          Vec.dot image y = .ok d ∧ Vec.dot x preimage = .ok d := by
  have hA := wellFormed_of_checkFormat h
  refine ⟨hA.isProduct_gemv, hA.isProduct_gemvT, ?_⟩
  intro x y old old' hx hy hold hold'
  exact hA.isProduct_gemv.dot_eq hA.isProduct_gemvT hx hy hold hold'

def gapped : Csc ℚ := ⟨2, 3, #[0, 1, 1, 3], #[0, 0, 1], #[1, 2, 4]⟩

/-- Updates by a matrix with an empty column, an update that stops, and two products that are adjoint. -/
theorem gapped_products : gapped.checkFormat = .ok (.ok ()) ∧
    @gemv ℚ (.exact ℚ) gapped [5, 6] [1, 1, 1] 2 3 = .ok [21, 26] ∧
    @gemvT ℚ (.exact ℚ) gapped [1, 1, 1] [5, 6] 2 3 = .ok [13, 3, 71] ∧
    (∃ fault, @gemv ℚ (.exact ℚ) gapped [5, 6] [1, 1] 2 3 = .error fault) ∧
    ∃ image preimage d, @gemv ℚ (.exact ℚ) gapped [0, 0] [1, 1, 1] 1 0 = .ok image ∧
      @gemvT ℚ (.exact ℚ) gapped [0, 0, 0] [5, 6] 1 0 = .ok preimage ∧
        @Vec.dot ℚ (.exact ℚ) image [5, 6] = .ok d ∧ @Vec.dot ℚ (.exact ℚ) [1, 1, 1] preimage = .ok d := by
  have hformat : gapped.checkFormat = .ok (.ok ()) := by with_unfolding_all rfl
  obtain ⟨hgemv, hgemvT, hadjoint⟩ := general_products hformat
  refine ⟨hformat, ?_, ?_, (hgemv.stops_iff [5, 6] [1, 1] 2 3).mpr (.inl (by decide)),
    hadjoint [1, 1, 1] [5, 6] [0, 0] [0, 0, 0] rfl rfl rfl rfl⟩
  · rw [hgemv.eq_ok 2 3 rfl rfl]
    exact congrArg Except.ok (by decide +kernel)
  · rw [hgemvT.eq_ok 2 3 rfl rfl]
    exact congrArg Except.ok (by decide +kernel)

end Csc

end QpReferee

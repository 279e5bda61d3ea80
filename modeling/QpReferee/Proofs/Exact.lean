import Mathlib.Algebra.Order.Field.Basic
import Mathlib.Algebra.Order.Field.Rat
import Mathlib.Data.Finset.Fold
import Mathlib.Data.List.OfFn
import Mathlib.Data.Matrix.Mul
import Mathlib.Algebra.BigOperators.Fin
import Mathlib.Algebra.Order.BigOperators.Group.Finset
import QpReferee.Proofs.Checked
import QpReferee.Vec

/-!
# Exact arithmetic

The kernels read over an ordered field: nothing is rounded, every value is finite, and the order is
total. A vector of a known length is then a function on its indices.

* `Scalar.exact` : the operations of an ordered field as scalars; `Scalar.exact_rat` : on the rational
  numbers they are the library's own.
* `coords` : the entries of a list as a function; `maxOver`, `supNorm` : the greatest of finitely many
  values, and the infinity norm.
* `Vec.dot_ofFn`, `Vec.norm_ofFn`, `Vec.combine_ofFn` : what the vector kernels compute.
-/

/-- An ordered field. It is declared outside the library's namespace, where a field is a part of a
printed line. -/
class OrderedField (K : Type) extends Field K, LinearOrder K, IsStrictOrderedRing K

instance : OrderedField ℚ where

namespace QpReferee

/-- The operations of an ordered field as scalars. -/
instance (priority := low) Scalar.exact (K : Type) [OrderedField K] : Scalar K where
  abs a := |a|
  le a b := decide (a ≤ b)
  eq a b := decide (a = b)
  isNaN _ := false
  isFinite _ := true
  ofNat n := n
  ofRatio num den := num / den

theorem Scalar.exact_rat : Scalar.exact ℚ = instScalarRat := by
  have habs : ∀ a : ℚ, |a| = if a < 0 then -a else a := fun a => by
    split_ifs with h
    · exact abs_of_neg h
    · exact abs_of_nonneg (not_lt.mp h)
  have hratio : ∀ num den : ℕ, (num : ℚ) / den = mkRat num den := fun num den => by
    rw [Rat.mkRat_eq_div]
    rfl
  unfold Scalar.exact instScalarRat
  congr 1
  · funext a
    exact habs a
  · funext num den
    exact hratio num den

variable {K : Type} [OrderedField K]

namespace Scalar

@[simp] theorem abs_exact (a : K) : Scalar.abs a = |a| := rfl

@[simp] theorem le_exact (a b : K) : Scalar.le a b = decide (a ≤ b) := rfl

@[simp] theorem eq_exact (a b : K) : Scalar.eq a b = decide (a = b) := rfl

@[simp] theorem isNaN_exact (a : K) : Scalar.isNaN a = false := rfl

@[simp] theorem isFinite_exact (a : K) : Scalar.isFinite a = true := rfl

@[simp] theorem ofNat_exact (n : ℕ) : (Scalar.ofNat n : K) = n := rfl

@[simp] theorem ofRatio_exact (num den : ℕ) : (Scalar.ofRatio num den : K) = num / den := rfl

@[simp] theorem max_exact (a b : K) : Scalar.max a b = Max.max a b := by
  simp [Scalar.max, max_def]

@[simp] theorem min_exact (a b : K) : Scalar.min a b = Min.min a b := by
  simp [Scalar.min, min_def]

end Scalar

/-! ## Greatest values -/

/-- The greatest of some values; zero if there are none above it. -/
def maxOver {ι : Type} (s : Finset ι) (f : ι → K) : K := s.fold max 0 f

def supNorm {n : ℕ} (v : Fin n → K) : K := maxOver Finset.univ fun i => |v i|

section Greatest

variable {ι : Type} {s : Finset ι} {f : ι → K} {c : K}

theorem maxOver_le_iff : maxOver s f ≤ c ↔ 0 ≤ c ∧ ∀ i ∈ s, f i ≤ c := Finset.fold_max_le c

theorem le_maxOver {i : ι} (hi : i ∈ s) : f i ≤ maxOver s f := (maxOver_le_iff.mp le_rfl).2 i hi

theorem supNorm_le_iff {n : ℕ} {v : Fin n → K} : supNorm v ≤ c ↔ 0 ≤ c ∧ ∀ i, |v i| ≤ c := by
  simp [supNorm, maxOver_le_iff]

theorem abs_le_supNorm {n : ℕ} (v : Fin n → K) (i : Fin n) : |v i| ≤ supNorm v :=
  (supNorm_le_iff.mp le_rfl).2 i

theorem maxOver_nonneg : 0 ≤ maxOver s f := (maxOver_le_iff.mp le_rfl).1

theorem maxOver_eq_zero (h : ∀ i ∈ s, f i ≤ 0) : maxOver s f = 0 :=
  le_antisymm (maxOver_le_iff.mpr ⟨le_rfl, h⟩) maxOver_nonneg

theorem supNorm_nonneg {n : ℕ} (v : Fin n → K) : 0 ≤ supNorm v := maxOver_nonneg

theorem abs_dotProduct_le {n : ℕ} (g d : Fin n → K) : |g ⬝ᵥ d| ≤ supNorm g * ∑ j, |d j| := by
  rw [dotProduct, Finset.mul_sum]
  refine (Finset.abs_sum_le_sum_abs _ _).trans (Finset.sum_le_sum fun j _ => ?_)
  rw [abs_mul]
  exact mul_le_mul_of_nonneg_right (abs_le_supNorm g j) (abs_nonneg _)

theorem supNorm_eq_maxOver {n : ℕ} {v : Fin n → K} {s : Finset (Fin n)} {f : Fin n → K}
    (hin : ∀ i ∈ s, |v i| = f i) (hout : ∀ i ∉ s, v i = 0) : supNorm v = maxOver s f := by
  refine eq_of_forall_ge_iff fun c => ?_
  rw [supNorm_le_iff, maxOver_le_iff]
  refine and_congr_right fun hc => ⟨fun h i hi => hin i hi ▸ h i, fun h i => ?_⟩
  by_cases hi : i ∈ s
  · rw [hin i hi]
    exact h i hi
  · rw [hout i hi, abs_zero]
    exact hc

end Greatest

/-! ## Vectors as functions -/

/-- The first `n` entries of a vector, as a function. -/
def coords {T : Type} [Zero T] (n : ℕ) (x : List T) : Fin n → T := fun i => x.getD i 0

theorem ofFn_coords {T : Type} [Zero T] {n : ℕ} {x : List T} (h : x.length = n) :
    List.ofFn (coords n x) = x := by
  subst h
  refine List.ext_getElem (by simp) fun i h1 h2 => ?_
  simp [coords, List.getD_eq_getElem?_getD, h2]

theorem zip_ofFn {α β : Type} {n : ℕ} (f : Fin n → α) (g : Fin n → β) :
    (List.ofFn f).zip (List.ofFn g) = List.ofFn fun i => (f i, g i) :=
  List.ext_getElem (by simp) fun i h1 h2 => by simp

theorem zipWith_ofFn {α β γ : Type} {n : ℕ} (h : α → β → γ) (f : Fin n → α) (g : Fin n → β) :
    (List.ofFn f).zipWith h (List.ofFn g) = List.ofFn fun i => h (f i) (g i) :=
  List.ext_getElem (by simp) fun i h1 h2 => by simp

theorem foldl_add_eq_sum {α : Type} (h : α → K) (l : List α) (a : K) :
    l.foldl (fun acc e => acc + h e) a = a + (l.map h).sum := by
  induction l generalizing a with
  | nil => simp
  | cons e l ih => rw [List.foldl_cons, ih, List.map_cons, List.sum_cons, add_assoc]

namespace Vec

variable {n : ℕ}

theorem dot_ofFn (f g : Fin n → K) : Vec.dot (List.ofFn f) (List.ofFn g) = .ok (f ⬝ᵥ g) := by
  unfold Vec.dot
  rw [demand_of (by simp), Checked.ok_bind, zip_ofFn]
  have hsum := foldl_add_eq_sum (fun e : K × K => e.1 * e.2) (List.ofFn fun i => (f i, g i)) 0
  rw [zero_add, List.map_ofFn, List.sum_ofFn] at hsum
  exact congrArg Except.ok hsum

theorem normFrom_le_iff {l : List K} {bound c : K} :
    normFrom bound l ≤ c ↔ bound ≤ c ∧ ∀ v ∈ l, |v| ≤ c := by
  induction l generalizing bound with
  | nil => simp [normFrom]
  | cons v l ih =>
    simp only [normFrom, Scalar.isNaN_exact, Bool.false_eq_true, if_false, ih, Scalar.max_exact,
      Scalar.abs_exact, max_le_iff, List.forall_mem_cons, and_assoc]

theorem norm_ofFn (f : Fin n → K) : Vec.norm (List.ofFn f) = supNorm f := by
  refine eq_of_forall_ge_iff fun c => ?_
  rw [Vec.norm, normFrom_le_iff, supNorm_le_iff, List.forall_mem_ofFn_iff]

theorem hadamardNorm_ofFn (f g : Fin n → K) :
    Vec.hadamardNorm (List.ofFn f) (List.ofFn g) = .ok (supNorm fun i => f i * g i) := by
  unfold Vec.hadamardNorm Vec.hadamard
  rw [demand_of (by simp), Checked.ok_bind, zipWith_ofFn, norm_ofFn]
  rfl

theorem combine_ofFn (a b : K) (f g : Fin n → K) :
    Vec.combine a (List.ofFn f) b (List.ofFn g) = .ok (List.ofFn fun i => a * f i + b * g i) := by
  unfold Vec.combine
  rw [demand_of (by simp), Checked.ok_bind, zipWith_ofFn]
  rfl

theorem isFinite_exact (x : List K) : Vec.isFinite x = true := by simp [Vec.isFinite]

end Vec

end QpReferee

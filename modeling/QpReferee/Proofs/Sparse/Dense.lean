import QpReferee.Proofs.Exact
import QpReferee.Proofs.Sparse.Product

/-!
# Sparse products are matrix products

Over exact arithmetic the three products of a matrix in format are those of its dense matrix. The loops
add one stored entry at a time, so each is first a sum over the entries of a column; since no row stands
twice in a column, that sum is one over the rows.

* `Csc.entry`, `Csc.dense` : the matrix that is stored.
* `Csc.WellFormed.gemv_ofFn`, `Csc.WellFormed.gemvT_ofFn` : `a · M · x + b · y` and `a · Mᵀ · x + b · y`.
* `Csc.WellFormed.symv_ofFn` : the symmetric product is one with `D + Dᵀ`, less the diagonal of `D`.
* `Csc.WellFormed.upperSymv_ofFn` : if only an upper triangle is stored, that is its symmetric matrix.
-/

namespace QpReferee

open Matrix

namespace Csc

section

variable {T : Type} [Zero T]

/-- The value stored for row `i` in the range of column `j`; zero if there is none. -/
def entry (A : Csc T) (i j : ℕ) : T := ((A.entries j).lookup i).getD 0

def dense (A : Csc T) (m n : ℕ) : Matrix (Fin m) (Fin n) T := fun i j => A.entry i j

end

variable {K : Type} [OrderedField K]

/-! ## Sums over the entries of a column -/

theorem lookup_cons_getD {l : List (ℕ × K)} {k : ℕ} (hk : k ∉ l.map Prod.fst) (v : K) (i : ℕ) :
    (((k, v) :: l).lookup i).getD 0 = (if i = k then v else 0) + (l.lookup i).getD 0 := by
  by_cases h : i = k
  · subst h
    have hnone : l.lookup i = none := by
      rw [List.lookup_eq_none_iff]
      intro p hp
      simpa using fun heq => hk (List.mem_map.mpr ⟨p, hp, heq.symm⟩)
    simp [hnone]
  · simp [List.lookup_cons, h, beq_eq_false_iff_ne.mpr h]

theorem sum_of_row {l : List (ℕ × K)} (hl : (l.map Prod.fst).Nodup) (i : ℕ) (c d : K) :
    (l.map fun e => if e.1 = i then c * e.2 * d else 0).sum = c * (l.lookup i).getD 0 * d := by
  induction l with
  | nil => simp
  | cons e l ih =>
    obtain ⟨k, v⟩ := e
    obtain ⟨hk, hl⟩ := List.nodup_cons.mp hl
    rw [List.map_cons, List.sum_cons, ih hl, lookup_cons_getD hk]
    by_cases h : i = k
    · subst h
      simp only [if_true]
      ring
    · simp only [if_neg h, if_neg (Ne.symm h)]
      ring

theorem sum_over_rows {l : List (ℕ × K)} (hl : (l.map Prod.fst).Nodup) {m : ℕ} (hlt : ∀ e ∈ l, e.1 < m)
    (g : ℕ → K) :
    (l.map fun e => e.2 * g e.1).sum = ∑ i : Fin m, (l.lookup i.val).getD 0 * g i := by
  induction l with
  | nil => simp
  | cons e l ih =>
    obtain ⟨k, v⟩ := e
    obtain ⟨hk, hl⟩ := List.nodup_cons.mp hl
    have hkm : k < m := hlt (k, v) List.mem_cons_self
    rw [List.map_cons, List.sum_cons, ih hl fun e he => hlt e (List.mem_cons_of_mem _ he)]
    simp only [lookup_cons_getD hk, add_mul, Finset.sum_add_distrib]
    congr 1
    rw [Finset.sum_eq_single_of_mem (⟨k, hkm⟩ : Fin m) (Finset.mem_univ _)]
    · simp
    · intro i _ hne
      have hval : i.val ≠ k := fun h => hne (Fin.ext h)
      rw [if_neg hval, zero_mul]

/-! ## One loop at a time -/

theorem getD_modify (y : Array K) (k : ℕ) (d : K) {i : ℕ} (hi : i < y.size) :
    (y.modify k (· + d)).getD i 0 = y.getD i 0 + if k = i then d else 0 := by
  have h := getD_modify_addends y k d hi
  split_ifs at h ⊢ <;> simpa using h

theorem getD_foldl_add {α : Type} {f : Array K → α → Array K} {i : ℕ} (d : α → K) (l : List α)
    (hsize : ∀ y, ∀ e ∈ l, (f y e).size = y.size)
    (hstep : ∀ y, i < y.size → ∀ e ∈ l, (f y e).getD i 0 = y.getD i 0 + d e) {y : Array K}
    (hi : i < y.size) : (l.foldl f y).getD i 0 = y.getD i 0 + (l.map d).sum := by
  have h := getD_foldl_addends (fun e => [d e]) l hsize hstep hi
  rwa [← List.map_eq_flatMap, List.foldl_map, foldl_add_eq_sum] at h

theorem zipIdx_ofFn {α : Type} {n : ℕ} (f : Fin n → α) :
    (List.ofFn f).zipIdx = List.ofFn fun i => (f i, i.val) :=
  List.ext_getElem (by simp) fun i h1 h2 => by simp

theorem ext_getD {x : Array K} {n : ℕ} {f : Fin n → K} (hsize : x.size = n)
    (h : ∀ i : Fin n, x.getD i 0 = f i) : x.toList = List.ofFn f := by
  refine List.ext_getElem (by simpa using hsize) fun i h1 h2 => ?_
  have hi : i < n := by simpa using h2
  have := h ⟨i, hi⟩
  rw [Array.getD_eq_getD_getElem?, Array.getElem?_eq_getElem (by omega)] at this
  simpa using this

theorem scaleOrReset_ofFn {n : ℕ} (b : K) (y : Fin n → K) :
    scaleOrReset b (List.ofFn y) = List.ofFn fun i => b * y i := by
  unfold scaleOrReset
  simp only [Scalar.eq_exact, decide_eq_true_eq]
  split_ifs with h0 h1
  · subst h0
    simp only [List.map_ofFn, zero_mul]
    rfl
  · subst h1
    simp
  · rw [List.map_ofFn]
    exact congrArg List.ofFn (funext fun i => mul_comm (y i) b)

namespace WellFormed

variable {A : Csc K} {m n : ℕ}

theorem getD_scattered (hA : A.WellFormed) {j : ℕ} (hj : j < A.cols) (a xj : K) {y : Array K} {i : ℕ}
    (hi : i < y.size) : (A.scattered a y xj j).getD i 0 = y.getD i 0 + a * A.entry i j * xj := by
  have h := getD_foldl_add (f := fun y (e : ℕ × K) => y.modify e.1 (· + a * e.2 * xj))
    (fun e => if e.1 = i then a * e.2 * xj else 0) (A.entries j) (fun y e _ => Array.size_modify)
    (fun y hy e _ => getD_modify y e.1 _ hy) hi
  rwa [sum_of_row (hA.nodup_entries hj)] at h

theorem gemv_ofFn (hA : A.WellFormed) (hm : A.rows = m) (hn : A.cols = n) (x : Fin n → K) (y : Fin m → K)
    (a b : K) :
    A.gemv (List.ofFn y) (List.ofFn x) a b =
      .ok (List.ofFn fun i => a * (A.dense m n *ᵥ x) i + b * y i) := by
  rw [hA.gemv_eq (by simp [hn]) (by simp [hm]), scaleOrReset_ofFn]
  congr 1
  split_ifs with ha
  · have ha : a = 0 := of_decide_eq_true ha
    simp [ha]
  · refine ext_getD (by rw [size_scatteredAll]; simp) fun i => ?_
    unfold scatteredAll
    rw [zipIdx_ofFn, getD_foldl_add (i := i.val) (fun e : K × ℕ => a * A.entry i e.2 * e.1) _
      (fun y e _ => size_scattered A a y e.1 e.2) (fun y hy e he => ?_) (by simp)]
    · rw [List.map_ofFn, List.sum_ofFn, mulVec, dotProduct, Finset.mul_sum, add_comm]
      congr 1
      · exact Finset.sum_congr rfl fun j _ => mul_assoc a _ _
      · simp [Array.getD_eq_getD_getElem?]
    · obtain ⟨j, rfl⟩ := List.mem_ofFn.mp he
      exact hA.getD_scattered (hn ▸ j.isLt) a _ hy

theorem gathered_ofFn (hA : A.WellFormed) (hm : A.rows = m) {j : ℕ} (hj : j < A.cols) (x : Fin m → K) :
    A.gathered (List.ofFn x).toArray j = ∑ i : Fin m, A.entry i j * x i := by
  have hsum := sum_over_rows (hA.nodup_entries hj) (m := m)
    (fun e he => hm ▸ hA.lt_of_mem_entries he) fun i => (List.ofFn x).toArray.getD i 0
  unfold gathered
  rw [foldl_add_eq_sum, zero_add, hsum]
  refine Finset.sum_congr rfl fun i _ => ?_
  simp [entry, Array.getD_eq_getD_getElem?]

theorem gemvT_ofFn (hA : A.WellFormed) (hm : A.rows = m) (hn : A.cols = n) (x : Fin m → K)
    (y : Fin n → K) (a b : K) :
    A.gemvT (List.ofFn y) (List.ofFn x) a b =
      .ok (List.ofFn fun j => a * ((A.dense m n)ᵀ *ᵥ x) j + b * y j) := by
  rw [hA.gemvT_eq (by simp [hm]) (by simp [hn]), scaleOrReset_ofFn]
  congr 1
  split_ifs with ha
  · have ha : a = 0 := of_decide_eq_true ha
    simp [ha]
  · rw [zipIdx_ofFn, List.map_ofFn]
    refine congrArg List.ofFn (funext fun j => ?_)
    dsimp only [Function.comp]
    rw [hA.gathered_ofFn hm (hn ▸ j.isLt), add_comm]
    rfl

end WellFormed

/-! ## The symmetric product -/

/-- The symmetric matrix whose upper triangle is stored. -/
def mirrored {T : Type} [Zero T] (A : Csc T) (n : ℕ) : Matrix (Fin n) (Fin n) T :=
  fun i j => A.entry (min i j) (max i j)

theorem mirrored_transpose {T : Type} [Zero T] (A : Csc T) (n : ℕ) : (A.mirrored n)ᵀ = A.mirrored n := by
  ext i j
  rw [transpose_apply, mirrored, mirrored, min_comm, max_comm]

/-- What one entry of column `j` adds to entry `i`. -/
def mirroredAddend (a : K) (x : Array K) (xj : K) (i j : ℕ) (e : ℕ × K) : K :=
  (if e.1 = i then a * e.2 * xj else 0) +
    if j = i then if e.1 = j then 0 else a * e.2 * x.getD e.1 0 else 0

theorem sum_addendsOf (a : K) (x : Array K) (xj : K) (i j : ℕ) (e : ℕ × K) :
    (addendsOf a x xj i j e).sum = mirroredAddend a x xj i j e := by
  unfold addendsOf mirroredAddend
  rw [List.sum_append]
  split_ifs <;> simp

theorem getD_scatteredEntry (a : K) (x : Array K) (xj : K) (j : ℕ) {y : Array K} (e : ℕ × K) {i : ℕ}
    (hi : i < y.size) :
    (scatteredEntry a x xj j y e).getD i 0 = y.getD i 0 + mirroredAddend a x xj i j e := by
  have hsum := foldl_add_eq_sum id (addendsOf a x xj i j e) (y.getD i 0)
  rw [List.map_id, sum_addendsOf] at hsum
  rw [getD_scatteredEntry_addends a x xj j e hi]
  exact hsum

theorem sum_map_mirroredAddend (a : K) (x : Array K) (xj : K) (i j : ℕ) (l : List (ℕ × K)) :
    (l.map (mirroredAddend a x xj i j)).sum =
      (l.map fun e => if e.1 = i then a * e.2 * xj else 0).sum +
        if j = i then (l.map fun e => e.2 * if e.1 = j then 0 else a * x.getD e.1 0).sum else 0 := by
  by_cases hji : j = i
  · rw [if_pos hji, ← List.sum_map_add]
    refine congrArg List.sum (List.map_congr_left fun e _ => ?_)
    rw [mirroredAddend, if_pos hji]
    split_ifs <;> ring
  · rw [if_neg hji, add_zero]
    refine congrArg List.sum (List.map_congr_left fun e _ => ?_)
    rw [mirroredAddend, if_neg hji, add_zero]

namespace WellFormed

variable {A : Csc K} {n : ℕ}

theorem sum_offDiagonal (hA : A.WellFormed) (hrows : A.rows = n) (hcols : A.cols = n) (a : K)
    (x : Fin n → K) (j : Fin n) :
    ((A.entries j).map fun e =>
        e.2 * if e.1 = j.val then 0 else a * (List.ofFn x).toArray.getD e.1 0).sum =
      a * (((A.dense n n)ᵀ *ᵥ x) j - A.dense n n j j * x j) := by
  have hterm : ∀ k : Fin n, ((A.entries j).lookup k.val).getD 0 *
      (if k.val = j.val then 0 else a * (List.ofFn x).toArray.getD k 0) =
        a * (A.dense n n k j * x k) - if k = j then a * (A.dense n n k j * x k) else 0 := by
    intro k
    have hx : (List.ofFn x).toArray.getD k 0 = x k := by simp [Array.getD_eq_getD_getElem?]
    change A.dense n n k j * _ = _
    by_cases hk : k = j
    · simp [hk]
    · rw [if_neg fun h => hk (Fin.ext h), if_neg hk, hx, sub_zero, mul_left_comm]
  rw [sum_over_rows (hA.nodup_entries (hcols ▸ j.isLt)) (m := n)
    (fun e he => hrows ▸ hA.lt_of_mem_entries he)
    fun k => if k = j.val then 0 else a * (List.ofFn x).toArray.getD k 0,
    Finset.sum_congr rfl fun k _ => hterm k, Finset.sum_sub_distrib, Finset.sum_ite_eq' Finset.univ j,
    if_pos (Finset.mem_univ j), ← Finset.mul_sum, mul_sub]
  rfl

theorem sum_mirroredAddend (hA : A.WellFormed) (hrows : A.rows = n) (hcols : A.cols = n) (a : K)
    (x : Fin n → K) (i j : Fin n) :
    ((A.entries j).map (mirroredAddend a (List.ofFn x).toArray (x j) i j)).sum =
      a * (A.dense n n i j * x j) +
        if j = i then a * (((A.dense n n)ᵀ *ᵥ x) j - A.dense n n j j * x j) else 0 := by
  rw [sum_map_mirroredAddend, sum_of_row (hA.nodup_entries (hcols ▸ j.isLt)),
    hA.sum_offDiagonal hrows hcols, mul_assoc]
  simp only [Fin.val_inj]
  rfl

/-- The loop of the symmetric product, entry by entry. -/
theorem getD_scatteredBoth (hA : A.WellFormed) (hrows : A.rows = n) (hcols : A.cols = n) (a : K)
    (x : Fin n → K) {y : Array K} (i : Fin n) (hi : i.val < y.size) :
    (A.scatteredBoth a (List.ofFn x).toArray y).getD i 0 =
      y.getD i 0 + a * ((A.dense n n + (A.dense n n)ᵀ - diagonal (A.dense n n).diag) *ᵥ x) i := by
  unfold scatteredBoth
  rw [List.toList_toArray, zipIdx_ofFn,
    getD_foldl_add (i := i.val) (fun e : K × ℕ => ((A.entries e.2).map
      (mirroredAddend a (List.ofFn x).toArray e.1 i e.2)).sum) _
      (fun y e _ => size_foldl_scatteredEntry a _ e.1 e.2 _ y)
      (fun y hy e _ => getD_foldl_add _ _ (fun y e' _ => size_scatteredEntry a _ e.1 e.2 y e')
        (fun y hy e' _ => getD_scatteredEntry a _ e.1 e.2 e' hy) hy) hi]
  congr 1
  rw [List.map_ofFn, List.sum_ofFn]
  calc ∑ j : Fin n, ((A.entries j).map (mirroredAddend a (List.ofFn x).toArray (x j) i j)).sum
      = a * (A.dense n n *ᵥ x) i + a * (((A.dense n n)ᵀ *ᵥ x) i - A.dense n n i i * x i) := by
        rw [Finset.sum_congr rfl fun j _ => hA.sum_mirroredAddend hrows hcols a x i j,
          Finset.sum_add_distrib, Finset.sum_ite_eq' Finset.univ i, if_pos (Finset.mem_univ i),
          ← Finset.mul_sum]
        rfl
    _ = a * ((A.dense n n + (A.dense n n)ᵀ - diagonal (A.dense n n).diag) *ᵥ x) i := by
        rw [sub_mulVec, add_mulVec, Pi.sub_apply, Pi.add_apply, mulVec_diagonal, diag_apply]
        ring

theorem symv_ofFn (hA : A.WellFormed) (hrows : A.rows = n) (hcols : A.cols = n) (x y : Fin n → K)
    (a b : K) :
    A.symv (List.ofFn y) (List.ofFn x) a b = .ok (List.ofFn fun i =>
      a * ((A.dense n n + (A.dense n n)ᵀ - diagonal (A.dense n n).diag) *ᵥ x) i + b * y i) := by
  rw [hA.symv_eq (by rw [hrows, hcols]) (by simp [hcols]) (by simp [hcols]), scaleOrReset_ofFn]
  refine congrArg Except.ok (ext_getD ?_ fun i => ?_)
  · rw [size_scatteredBoth]
    simp
  · rw [hA.getD_scatteredBoth hrows hcols a x i (by simp), add_comm]
    simp [Array.getD_eq_getD_getElem?]

theorem mirrored_eq (hA : A.WellFormed) (hcols : A.cols = n) (hupper : A.isUpper = .ok true) :
    A.dense n n + (A.dense n n)ᵀ - diagonal (A.dense n n).diag = A.mirrored n := by
  have hbelow : ∀ i j : Fin n, j < i → A.dense n n i j = 0 := by
    intro i j hlt
    have hnone : (A.entries j).lookup i.val = none := by
      rw [List.lookup_eq_none_iff]
      intro e he
      have hle := le_of_isUpper hA hupper (hcols ▸ j.isLt) he
      have hne : i.val ≠ e.1 := by omega
      simpa using hne
    rw [dense, entry, hnone, Option.getD_none]
  ext i j
  rw [Matrix.sub_apply, Matrix.add_apply, transpose_apply, diagonal_apply, diag_apply, mirrored]
  rcases lt_trichotomy i j with h | h | h
  · have hle : i.val ≤ j.val := le_of_lt h
    rw [hbelow j i h, if_neg h.ne, min_eq_left hle, max_eq_right hle, add_zero, sub_zero]
    rfl
  · subst h
    rw [if_pos rfl, min_self, max_self, add_sub_cancel_right]
    rfl
  · have hle : j.val ≤ i.val := le_of_lt h
    rw [hbelow i j h, if_neg h.ne', min_eq_right hle, max_eq_left hle, zero_add, sub_zero]
    rfl

theorem upperSymv_ofFn (hA : A.WellFormed) (hrows : A.rows = n) (hcols : A.cols = n)
    (hupper : A.isUpper = .ok true) (x y : Fin n → K) (a b : K) :
    A.upperSymv (List.ofFn y) (List.ofFn x) a b =
      .ok (List.ofFn fun i => a * (A.mirrored n *ᵥ x) i + b * y i) := by
  rw [upperSymv_eq_symv hupper, hA.symv_ofFn hrows hcols, hA.mirrored_eq hcols hupper]

end WellFormed

end Csc

end QpReferee

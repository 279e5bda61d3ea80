import Mathlib.Data.List.Pairwise
import Mathlib.Data.List.Chain
import QpReferee.Proofs.Checked
import QpReferee.Proofs.Conditions
import QpReferee.Sparse.Format

/-!
# What the format check establishes

A matrix that passes `Csc.checkFormat` has columns: each range of positions lies inside the arrays, and
its rows are strictly increasing and inside the matrix. The check goes through four conditions in an order
in which each makes the next safe to ask; the one thing that stops it is the number of pointers, which for
the widest matrix is no size.

* `Csc.Ranged` : the pointers split the positions of the arrays into ranges, so that no access to a column
  leaves them.
* `Csc.WellFormed` : the facts behind the check; `Csc.wellFormed_of_checkFormat` : a passing matrix has
  them.
* `Csc.concludes_checkFormat`, `Csc.checkFormat_of_tooWide` : **the check answers with the first condition
  that is broken, or stops.**
* `Csc.entries` : the entries of a column without the bounds checks of `Csc.column`, to which it is equal
  (`Csc.WellFormed.column_eq`).
-/

namespace QpReferee

variable {T : Type}

theorem neighbours_eq_true {α : Type} {related : α → α → Bool} {l : List α} :
    neighbours related l = true ↔ l.IsChain (fun a b => related a b = true) := by
  induction l with
  | nil => simp [neighbours]
  | cons a l ih =>
    cases l with
    | nil => simp [neighbours]
    | cons b l => simp [neighbours, ih]

theorem neighbours_le_iff {l : List Nat} : neighbours (· ≤ ·) l = true ↔ l.Pairwise (· ≤ ·) := by
  rw [neighbours_eq_true, ← List.isChain_iff_pairwise]
  simp

theorem neighbours_lt_iff {l : List Nat} : neighbours (· < ·) l = true ↔ l.Pairwise (· < ·) := by
  rw [neighbours_eq_true, ← List.isChain_iff_pairwise]
  simp

theorem itemAt_eq {α : Type} {xs : Array α} {i : Nat} (h : i < xs.size) : itemAt xs i = .ok xs[i] := by
  simp [itemAt, h]

theorem slice_eq {α : Type} {xs : Array α} {lo hi : Nat} (hle : lo ≤ hi) (hhi : hi ≤ xs.size) :
    slice xs lo hi = .ok (xs.extract lo hi).toList :=
  if_pos ⟨hle, hhi⟩

namespace Csc

/-- What the arrays of a matrix in the right format satisfy. -/
structure WellFormed (A : Csc T) : Prop where
  size_eq : A.rowIdx.size = A.values.size
  pointers : A.colPtr.size = A.cols + 1
  last : A.colPtr[A.cols]? = some A.rowIdx.size
  ascending : A.colPtr.toList.Pairwise (· ≤ ·)
  /-- The rows of each column are strictly increasing. -/
  increasing : ∀ j < A.cols, ∃ rows, A.rowsOf j = .ok rows ∧ rows.Pairwise (· < ·)
  bounded : ∀ i ∈ A.rowIdx, i < A.rows

theorem allColumnsFrom_eq_true {test : Nat → Checked Bool} {j count : Nat} :
    allColumnsFrom test j count = .ok true ↔ ∀ k, j ≤ k → k < j + count → test k = .ok true := by
  induction count generalizing j with
  | zero => simp only [allColumnsFrom, true_iff]; intro k h1 h2; omega
  | succ count ih =>
    rw [allColumnsFrom]
    cases h : test j with
    | error e =>
      simp only [false_iff, reduceCtorEq]
      intro hall
      simpa [h] using hall j (le_refl j) (by omega)
    | ok passed =>
      cases passed with
      | false =>
        simp only [Except.ok.injEq, Bool.false_eq_true, false_iff]
        intro hall
        simpa [h] using hall j (le_refl j) (by omega)
      | true =>
        simp only [ih]
        constructor
        · intro hall k h1 h2
          rcases Nat.eq_or_lt_of_le h1 with rfl | hlt
          · exact h
          · exact hall k hlt (by omega)
        · intro hall k h1 h2
          exact hall k (by omega) (by omega)

theorem allColumns_eq_true {A : Csc T} {test : Nat → Checked Bool} :
    A.allColumns test = .ok true ↔ ∀ j < A.cols, test j = .ok true := by
  unfold allColumns
  rw [allColumnsFrom_eq_true]
  simp

theorem exists_allColumns {A : Csc T} {test : Nat → Checked Bool}
    (h : ∀ j < A.cols, ∃ passed, test j = .ok passed) : ∃ passed, A.allColumns test = .ok passed := by
  have hfrom : ∀ count j, j + count ≤ A.cols → ∃ passed, allColumnsFrom test j count = .ok passed := by
    intro count
    induction count with
    | zero =>
      intro j _
      exact ⟨true, rfl⟩
    | succ count ih =>
      intro j hj
      obtain ⟨passed, hpassed⟩ := h j (by omega)
      rw [allColumnsFrom, hpassed]
      cases passed with
      | false => exact ⟨false, rfl⟩
      | true => exact ih (j + 1) (by omega)
  exact hfrom A.cols 0 (by omega)

/-! ## The ranges of the columns -/

/-- The pointers split the positions of the arrays into one range for each column. -/
structure Ranged (A : Csc T) : Prop where
  size_eq : A.rowIdx.size = A.values.size
  pointers : A.colPtr.size = A.cols + 1
  last : A.colPtr[A.cols]? = some A.rowIdx.size
  ascending : A.colPtr.toList.Pairwise (· ≤ ·)

theorem WellFormed.ranged {A : Csc T} (hA : A.WellFormed) : A.Ranged :=
  ⟨hA.size_eq, hA.pointers, hA.last, hA.ascending⟩

namespace Ranged

variable {A : Csc T} {j : Nat}

theorem colPtr_mono (hA : A.Ranged) {a b : Nat} (hab : a ≤ b) (hb : b ≤ A.cols) :
    A.colPtr.getD a 0 ≤ A.colPtr.getD b 0 := by
  have hsize := hA.pointers
  rcases Nat.eq_or_lt_of_le hab with rfl | hlt
  · exact le_refl _
  · have h := List.pairwise_iff_getElem.mp hA.ascending a b (by simp; omega) (by simp; omega) hlt
    rw [Array.getD_eq_getD_getElem?, Array.getD_eq_getD_getElem?,
      Array.getElem?_eq_getElem (by omega), Array.getElem?_eq_getElem (by omega)]
    simpa using h

theorem colPtr_cols (hA : A.Ranged) : A.colPtr.getD A.cols 0 = A.rowIdx.size := by
  rw [Array.getD_eq_getD_getElem?, hA.last, Option.getD_some]

theorem colPtr_le (hA : A.Ranged) (hj : j < A.cols) :
    A.colPtr.getD j 0 ≤ A.colPtr.getD (j + 1) 0 ∧ A.colPtr.getD (j + 1) 0 ≤ A.rowIdx.size :=
  ⟨hA.colPtr_mono (by omega) (by omega), hA.colPtr_cols ▸ hA.colPtr_mono (by omega) (le_refl _)⟩

theorem bounds_eq (hA : A.Ranged) (hj : j < A.cols) :
    A.bounds j = .ok (A.colPtr.getD j 0, A.colPtr.getD (j + 1) 0) := by
  have hsize := hA.pointers
  unfold bounds
  rw [itemAt_eq (by omega), itemAt_eq (by omega)]
  simp [Array.getD_eq_getD_getElem?, hsize, hj, show j < A.cols + 1 by omega, pure, Except.pure]

theorem rowsOf_eq (hA : A.Ranged) (hj : j < A.cols) :
    A.rowsOf j = .ok (A.rowIdx.extract (A.colPtr.getD j 0) (A.colPtr.getD (j + 1) 0)).toList := by
  obtain ⟨hle, hhi⟩ := hA.colPtr_le hj
  unfold rowsOf
  rw [hA.bounds_eq hj, Checked.ok_bind]
  dsimp only
  rw [slice_eq hle hhi]

theorem exists_isUpper (hA : A.Ranged) : ∃ upper, A.isUpper = .ok upper := by
  refine exists_allColumns fun j hj => ?_
  rw [hA.rowsOf_eq hj, Checked.ok_bind]
  exact ⟨_, rfl⟩

end Ranged

/-! ## The verdict of the check -/

/-- The arrays fit each other, and the number of pointers that they have to fit is no size. -/
def TooWide (A : Csc T) : Prop := A.rowIdx.size = A.values.size ∧ wordRange ≤ A.cols + 1

theorem not_tooWide {A : Csc T} (h : A.cols + 1 < wordRange) : ¬A.TooWide :=
  fun hwide => absurd hwide.2 (not_le.mpr h)

/-- The sizes of the arrays agree with each other, with the number of columns and with the last pointer. -/
def Sized (A : Csc T) : Prop :=
  A.rowIdx.size = A.values.size ∧ A.colPtr.size = A.cols + 1 ∧ A.colPtr[A.cols]? = some A.rowIdx.size

theorem sizesAgree_of_tooWide {A : Csc T} (h : A.TooWide) : A.sizesAgree = .error .overflow := by
  have hadd : checkedAdd A.cols 1 = .error .overflow := if_neg (by have := h.2; omega)
  unfold sizesAgree
  rw [if_neg (not_not.mpr h.1), hadd]
  rfl

theorem exists_sizesAgree {A : Csc T} (h : ¬A.TooWide) :
    ∃ agree, A.sizesAgree = .ok agree ∧ (agree = true ↔ A.Sized) := by
  unfold sizesAgree Sized
  by_cases hsize : A.rowIdx.size = A.values.size
  · have hadd : checkedAdd A.cols 1 = .ok (A.cols + 1) := if_pos (not_le.mp fun hle => h ⟨hsize, hle⟩)
    rw [if_neg (not_not.mpr hsize), hadd, Checked.ok_bind]
    by_cases hptr : A.colPtr.size = A.cols + 1
    · have hlt : A.cols < A.colPtr.size := by omega
      rw [if_neg (not_not.mpr hptr), entryCount, itemAt_eq hlt, Checked.ok_bind]
      exact ⟨_, rfl, by simp [hsize, hptr]⟩
    · rw [if_pos hptr]
      exact ⟨false, rfl, by simp [hptr]⟩
  · rw [if_pos hsize]
    exact ⟨false, rfl, by simp [hsize]⟩

/-- The conditions of the check, in order. -/
def formatConditions (A : Csc T) : List (Condition FormatError) :=
  [⟨A.Sized, .incompatibleDimension⟩,
    ⟨A.colPtr.toList.Pairwise (· ≤ ·), .badColumnPointer⟩,
    ⟨∀ j < A.cols, ∃ rows, A.rowsOf j = .ok rows ∧ rows.Pairwise (· < ·), .badRowOrdering⟩,
    ⟨∀ i ∈ A.rowIdx, i < A.rows, .badRowIndex⟩]

theorem wellFormed_iff {A : Csc T} : A.WellFormed ↔ ∀ c ∈ A.formatConditions, c.holds := by
  constructor
  · intro hA
    simp only [formatConditions, List.forall_mem_cons]
    exact ⟨⟨hA.size_eq, hA.pointers, hA.last⟩, hA.ascending, hA.increasing, hA.bounded, by simp⟩
  · intro h
    simp only [formatConditions, List.forall_mem_cons] at h
    obtain ⟨⟨hsize, hpointers, hlast⟩, hascending, hincreasing, hbounded, -⟩ := h
    exact ⟨hsize, hpointers, hlast, hascending, hincreasing, hbounded⟩

theorem sortedColumn_iff {A : Csc T} (hA : A.Ranged) {j : Nat} (hj : j < A.cols) :
    ∃ passed, (do return neighbours (· < ·) (← A.rowsOf j) : Checked Bool) = .ok passed ∧
      (passed = true ↔ ∃ rows, A.rowsOf j = .ok rows ∧ rows.Pairwise (· < ·)) := by
  rw [hA.rowsOf_eq hj, Checked.ok_bind]
  exact ⟨_, rfl, by simp [neighbours_lt_iff]⟩

theorem exists_sorted {A : Csc T} (hA : A.Ranged) :
    ∃ sorted, A.allColumns (fun j => do return neighbours (· < ·) (← A.rowsOf j)) = .ok sorted ∧
      (sorted = true ↔ ∀ j < A.cols, ∃ rows, A.rowsOf j = .ok rows ∧ rows.Pairwise (· < ·)) := by
  obtain ⟨sorted, hsorted⟩ := exists_allColumns fun j hj => (sortedColumn_iff hA hj).imp fun _ h => h.1
  refine ⟨sorted, hsorted, ?_⟩
  rw [show sorted = true ↔ (.ok sorted : Checked Bool) = .ok true by simp, ← hsorted,
    allColumns_eq_true]
  refine forall₂_congr fun j hj => ?_
  obtain ⟨passed, hrun, hpassed⟩ := sortedColumn_iff hA hj
  rw [hrun, Except.ok.injEq, hpassed]

/-- **The check answers with the first condition that is broken.** -/
theorem concludes_checkFormat {A : Csc T} (h : ¬A.TooWide) :
    Concludes A.checkFormat A.formatConditions () := by
  unfold checkFormat formatConditions
  obtain ⟨agree, hagree, hsized⟩ := exists_sizesAgree h
  rw [hagree, Checked.ok_bind]
  refine .guard hsized fun ⟨hsize, hpointers, hlast⟩ => ?_
  refine .guard neighbours_le_iff fun hascending => ?_
  -- only now the slices of the columns are inside the arrays
  obtain ⟨sorted, hrun, hsorted⟩ := exists_sorted ⟨hsize, hpointers, hlast, hascending⟩
  rw [hrun, Checked.ok_bind]
  refine .guard hsorted fun _ => ?_
  refine .guard ?_ fun _ => concludes_done
  rw [Array.all_eq_true']
  simp

theorem checkFormat_of_tooWide {A : Csc T} (h : A.TooWide) : A.checkFormat = .error .overflow := by
  unfold checkFormat
  rw [sizesAgree_of_tooWide h]
  rfl

theorem wellFormed_of_checkFormat {A : Csc T} (h : A.checkFormat = .ok (.ok ())) : A.WellFormed := by
  have hwide : ¬A.TooWide := fun hwide => by cases (checkFormat_of_tooWide hwide).symm.trans h
  exact wellFormed_iff.mpr ((concludes_checkFormat hwide).eq_ok_iff.mp h).1

theorem WellFormed.checkFormat_eq {A : Csc T} (hA : A.WellFormed) (hwide : A.cols + 1 < wordRange) :
    A.checkFormat = .ok (.ok ()) :=
  (concludes_checkFormat (not_tooWide hwide)).eq_ok_iff.mpr ⟨wellFormed_iff.mp hA, rfl⟩

theorem WellFormed.checkFormat_cases {A : Csc T} (hA : A.WellFormed) :
    A.checkFormat = .error .overflow ∨ A.checkFormat = .ok (.ok ()) := by
  by_cases hwide : A.TooWide
  · exact .inl (checkFormat_of_tooWide hwide)
  · exact .inr ((concludes_checkFormat hwide).eq_ok_iff.mpr ⟨wellFormed_iff.mp hA, rfl⟩)

/-! ## The entries of a column -/

/-- The entries of a column: pairs of a row and a value. -/
def entries (A : Csc T) (j : Nat) : List (Nat × T) :=
  let lo := A.colPtr.getD j 0
  let hi := A.colPtr.getD (j + 1) 0
  (A.rowIdx.extract lo hi).toList.zip (A.values.extract lo hi).toList

theorem Ranged.rowsOf_entries {A : Csc T} (hA : A.Ranged) {j : Nat} (hj : j < A.cols) :
    A.rowsOf j = .ok ((A.entries j).map Prod.fst) := by
  rw [hA.rowsOf_eq hj, entries, List.map_fst_zip]
  simp [← hA.size_eq]

namespace WellFormed

variable {A : Csc T} {j : Nat}

theorem column_eq (hA : A.WellFormed) (hj : j < A.cols) : A.column j = .ok (A.entries j) := by
  obtain ⟨hle, hhi⟩ := hA.ranged.colPtr_le hj
  unfold column
  rw [hA.ranged.bounds_eq hj, Checked.ok_bind]
  dsimp only
  rw [slice_eq hle hhi, slice_eq hle (hA.size_eq ▸ hhi)]
  rfl

theorem rowsOf_eq (hA : A.WellFormed) (hj : j < A.cols) :
    A.rowsOf j = .ok ((A.entries j).map Prod.fst) :=
  hA.ranged.rowsOf_entries hj

theorem increasing_entries (hA : A.WellFormed) (hj : j < A.cols) :
    ((A.entries j).map Prod.fst).Pairwise (· < ·) := by
  obtain ⟨rows, hrows, hsorted⟩ := hA.increasing j hj
  rw [hA.rowsOf_eq hj] at hrows
  rwa [Except.ok.inj hrows]

theorem nodup_entries (hA : A.WellFormed) (hj : j < A.cols) : ((A.entries j).map Prod.fst).Nodup :=
  (hA.increasing_entries hj).imp Nat.ne_of_lt

theorem lt_of_mem_entries (hA : A.WellFormed) {e : Nat × T} (he : e ∈ A.entries j) : e.1 < A.rows := by
  obtain ⟨i, v⟩ := e
  have hmem : i ∈ A.rowIdx.extract (A.colPtr.getD j 0) (A.colPtr.getD (j + 1) 0) :=
    Array.mem_toList_iff.mp (List.of_mem_zip he).1
  obtain ⟨k, hk, rfl⟩ := Array.mem_extract_iff_getElem.mp hmem
  exact hA.bounded _ (Array.getElem_mem _)

end WellFormed

theorem le_of_isUpper {A : Csc T} (hA : A.WellFormed) (h : A.isUpper = .ok true) {j : Nat}
    (hj : j < A.cols) {e : Nat × T} (he : e ∈ A.entries j) : e.1 ≤ j := by
  have htest := allColumns_eq_true.mp h j hj
  rw [hA.rowsOf_eq hj, Checked.ok_bind] at htest
  have hall : ((A.entries j).map Prod.fst).all (fun i => decide (i ≤ j)) = true := Except.ok.inj htest
  rw [List.all_eq_true] at hall
  simpa using hall e.1 (List.mem_map_of_mem he)

end Csc

end QpReferee

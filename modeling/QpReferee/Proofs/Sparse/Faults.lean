import QpReferee.Proofs.Sparse.Partition

/-!
# The faults of a matrix

What can be wrong with the fields of a matrix, said of the arrays alone: the check's loops and slices do not
occur in it. Each slice that the check takes is asked for only when the sizes agree and the pointers do not
descend, and then it lies inside the arrays, so the check goes through the faults in its order and stops at
none of them.

* `Csc.Mismatched`, `Csc.Descends`, `Csc.Disordered`, `Csc.Overreaches` : the four faults of a format.
* `Csc.Upper`, `Csc.Ranged.isUpper_iff` : no entry in a column is below the diagonal.
* `Csc.checkFormat_classifies` : **the check answers for every matrix, with the first fault.**
-/

namespace QpReferee.Csc

variable {T : Type}

/-- The sizes of the arrays do not fit each other, the number of columns or the last pointer. -/
def Mismatched (A : Csc T) : Prop :=
  A.rowIdx.size ≠ A.values.size ∨ A.colPtr.size ≠ A.cols + 1 ∨
    A.colPtr[A.cols]? ≠ some A.rowIdx.size

/-- Some pointer exceeds its successor. -/
def Descends (A : Csc T) : Prop :=
  ∃ (j lo hi : Nat), A.colPtr[j]? = some lo ∧ A.colPtr[j + 1]? = some hi ∧ hi < lo

/-- In some column the rows do not strictly increase. -/
def Disordered (A : Csc T) : Prop :=
  ∃ (j k l r s : Nat), A.Owns j k ∧ A.Owns j l ∧ k < l ∧
    A.rowIdx[k]? = some r ∧ A.rowIdx[l]? = some s ∧ s ≤ r

def Overreaches (A : Csc T) : Prop := ∃ r ∈ A.rowIdx, A.rows ≤ r

/-- No entry in the range of a column is below the diagonal. -/
def Upper (A : Csc T) : Prop :=
  ∀ (j k r : Nat), A.Owns j k → A.rowIdx[k]? = some r → r ≤ j

variable {A : Csc T}

theorem sized_iff : A.Sized ↔ ¬A.Mismatched := by
  simp [Sized, Mismatched]

theorem ascending_iff : A.colPtr.toList.Pairwise (· ≤ ·) ↔ ¬A.Descends := by
  rw [← List.isChain_iff_pairwise, List.isChain_iff_getElem]
  constructor
  · rintro h ⟨j, lo, hi, hlo, hhi, hlt⟩
    obtain ⟨hj, rfl⟩ := Array.getElem?_eq_some_iff.mp hlo
    obtain ⟨hj', rfl⟩ := Array.getElem?_eq_some_iff.mp hhi
    have := h j (by simpa using hj')
    simp only [Array.getElem_toList] at this
    omega
  · intro h j hj
    by_contra hlt
    simp only [Array.length_toList, Array.getElem_toList, not_le] at hj hlt
    exact h ⟨j, _, _, Array.getElem?_eq_getElem (by omega), Array.getElem?_eq_getElem hj, hlt⟩

theorem ranged_of_not (hsized : ¬A.Mismatched) (hascending : ¬A.Descends) : A.Ranged := by
  obtain ⟨hsize, hpointers, hlast⟩ := sized_iff.mpr hsized
  exact ⟨hsize, hpointers, hlast, ascending_iff.mpr hascending⟩

theorem bounded_iff : (∀ i ∈ A.rowIdx, i < A.rows) ↔ ¬A.Overreaches := by
  simp [Overreaches]

theorem increasing_iff (hA : A.Ranged) :
    (∀ j < A.cols, ∃ rows, A.rowsOf j = .ok rows ∧ rows.Pairwise (· < ·)) ↔ ¬A.Disordered := by
  constructor
  · rintro h ⟨j, k, l, r, s, hk, hl, hkl, hr, hs, hle⟩
    have := hA.rows_lt h hk hl hkl hr hs
    omega
  · intro h j hj
    refine ⟨_, hA.rowsOf_eq hj, (pairwise_extract_iff (hA.colPtr_le hj).2).mpr ?_⟩
    intro k l r s hlo hkl hhi hr hs
    by_contra hle
    exact h ⟨j, k, l, r, s, hA.owns_iff.mpr ⟨hj, hlo, by omega⟩,
      hA.owns_iff.mpr ⟨hj, by omega, hhi⟩, hkl, hr, hs, by omega⟩

theorem mem_extract_iff {xs : Array Nat} {lo hi r : Nat} :
    r ∈ (xs.extract lo hi).toList ↔ ∃ k, lo ≤ k ∧ k < hi ∧ xs[k]? = some r := by
  rw [Array.mem_toList_iff, Array.mem_extract_iff_getElem]
  constructor
  · rintro ⟨k, hk, rfl⟩
    exact ⟨lo + k, by omega, by omega, Array.getElem?_eq_getElem _⟩
  · rintro ⟨k, hlo, hhi, hr⟩
    obtain ⟨hk, rfl⟩ := Array.getElem?_eq_some_iff.mp hr
    refine ⟨k - lo, by omega, ?_⟩
    simp only [show lo + (k - lo) = k by omega]

theorem Ranged.isUpper_iff (hA : A.Ranged) : A.isUpper = .ok true ↔ A.Upper := by
  have hcolumn : ∀ j < A.cols, ((do return (← A.rowsOf j).all (· ≤ j) : Checked Bool) = .ok true ↔
      ∀ k r, A.Owns j k → A.rowIdx[k]? = some r → r ≤ j) := by
    intro j hj
    rw [hA.rowsOf_eq hj, Checked.ok_bind]
    simp only [pure, Except.pure, Except.ok.injEq, List.all_eq_true, decide_eq_true_eq,
      mem_extract_iff, hA.owns_iff]
    constructor
    · rintro h k r ⟨-, hlo, hhi⟩ hr
      exact h r ⟨k, hlo, hhi, hr⟩
    · rintro h r ⟨k, hlo, hhi, hr⟩
      exact h k r ⟨hj, hlo, hhi⟩ hr
  unfold isUpper
  rw [allColumns_eq_true]
  constructor
  · intro h j k r hk
    exact (hcolumn j hk.1).mp (h j hk.1) k r hk
  · intro h j hj
    exact (hcolumn j hj).mpr (h j)

/-- **The check answers for every matrix, with the first fault**: every slice that it takes is inside the
array of the rows, and each answer is given for its own fault alone. -/
theorem checkFormat_classifies (A : Csc T) (h : A.cols + 1 < wordRange) :
    ∃ verdict, A.checkFormat = .ok verdict ∧
      (¬A.Mismatched → ¬A.Descends → ∀ j < A.cols, ∃ lo hi, A.bounds j = .ok (lo, hi) ∧
        lo ≤ hi ∧ hi ≤ A.rowIdx.size) ∧
      (verdict = .error .incompatibleDimension ↔ A.Mismatched) ∧
      (verdict = .error .badColumnPointer ↔ ¬A.Mismatched ∧ A.Descends) ∧
      (verdict = .error .badRowOrdering ↔ ¬A.Mismatched ∧ ¬A.Descends ∧ A.Disordered) ∧
      (verdict = .error .badRowIndex ↔
        ¬A.Mismatched ∧ ¬A.Descends ∧ ¬A.Disordered ∧ A.Overreaches) ∧
      (verdict = .ok () ↔ ¬A.Mismatched ∧ ¬A.Descends ∧ ¬A.Disordered ∧ ¬A.Overreaches) := by
  obtain ⟨verdict, hverdict, hjudges⟩ := concludes_checkFormat (not_tooWide h)
  refine ⟨verdict, hverdict, ?_, ?_⟩
  · intro hsized hascending j hj
    have hA := ranged_of_not hsized hascending
    exact ⟨_, _, hA.bounds_eq hj, hA.colPtr_le hj⟩
  · simp only [hjudges.eq_error_iff, hjudges.eq_ok_iff, formatConditions, firstBroken_cons,
      not_firstBroken_nil, List.forall_mem_cons, sized_iff, ascending_iff, bounded_iff]
    -- the rows of a column are compared in its range, which is there only without the first two faults
    by_cases hsized : A.Mismatched
    · simp [hsized]
    by_cases hascending : A.Descends
    · simp [hsized, hascending]
    rw [increasing_iff (ranged_of_not hsized hascending)]
    simp [hsized, hascending]

/-- A matrix whose first column would leave the array of the rows, with a row that it does not have. -/
def tangled : Csc Float := ⟨1, 2, #[0, 2, 1], #[5], #[1]⟩

/-- Of two faults the first is answered, before the column is looked at. -/
theorem tangled_descends : tangled.cols + 1 < wordRange ∧ tangled.Descends ∧ tangled.Overreaches ∧
    tangled.rowsOf 0 = .error .range ∧ tangled.checkFormat = .ok (.error .badColumnPointer) := by
  have hwidth : tangled.cols + 1 < wordRange := by decide
  have hsized : ¬tangled.Mismatched := by simp [Mismatched, tangled]
  have hdescends : tangled.Descends := ⟨1, 2, 1, rfl, rfl, by decide⟩
  obtain ⟨verdict, hverdict, -, -, hpointer, -⟩ := checkFormat_classifies tangled hwidth
  rw [hpointer.mpr ⟨hsized, hdescends⟩] at hverdict
  exact ⟨hwidth, hdescends, ⟨5, by simp [tangled], by decide⟩, rfl, hverdict⟩

end QpReferee.Csc

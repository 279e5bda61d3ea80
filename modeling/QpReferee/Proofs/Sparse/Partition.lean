import Mathlib.Data.Set.Card
import Mathlib.Order.Interval.Finset.Nat
import QpReferee.Proofs.Sparse.Format
import QpReferee.Sparse.Product

/-!
# How the columns share the stored entries

The pointers of a matrix in format never descend and end with the arrays, so the ranges of the columns
follow each other without a gap. Nothing asks where the first one begins. The entries before it stand in no
column: they are counted, and no product reads them.

* `Csc.Owns` : a position of the arrays is in the range of a column.
* `Csc.Ranged.flatMap_entries` : **the columns one after the other are the stored entries from the first
  pointer on.**
* `Csc.WellFormed.ncard_positions` : the entries in columns stand at different places of the matrix.
* `Csc.gemv_withValue`, `Csc.gemvT_withValue`, `Csc.symv_withValue` : products ignore the entries before the
  first pointer.
* `Csc.partitioned_iff` : **the columns share out all entries exactly if the first pointer is zero.**
-/

namespace QpReferee.Csc

variable {T : Type}

/-- The position `k` of the arrays is in the range of column `j`. -/
def Owns (A : Csc T) (j k : Nat) : Prop :=
  j < A.cols ∧ ∃ lo hi, A.bounds j = .ok (lo, hi) ∧ lo ≤ k ∧ k < hi

/-- The stored entries in the order of the arrays, in columns or not. -/
def stored (A : Csc T) : List (Nat × T) := A.rowIdx.toList.zip A.values.toList

/-- The places of the matrix, as rows and columns, at which entries stand. -/
def positions (A : Csc T) : Set (Nat × Nat) := {p | ∃ k, A.Owns p.2 k ∧ A.rowIdx[k]? = some p.1}

/-- The columns share out the stored entries: each is in one column, they are counted as often as they
stand at different places, and going through the columns reads them all. -/
structure Partitioned (A : Csc T) : Prop where
  owned : ∀ k < A.values.size, ∃! j, A.Owns j k
  counted : A.entryCount = .ok A.positions.ncard
  reached : ∃ columns, (List.range A.cols).mapM A.column = .ok columns ∧ columns.flatten = A.stored

theorem length_stored {A : Csc T} (h : A.rowIdx.size = A.values.size) :
    A.stored.length = A.rowIdx.size := by
  simp [stored, h]

theorem entries_eq (A : Csc T) (j : Nat) : A.entries j =
    (A.stored.take (A.colPtr.getD (j + 1) 0)).drop (A.colPtr.getD j 0) := by
  show List.zip _ _ = _
  simp only [stored, List.zip, List.take_zipWith, List.drop_zipWith, Array.toList_extract, List.extract,
    List.drop_take]

theorem drop_take_append {α : Type} {l : List α} {first lo hi : Nat} (hfirst : first ≤ lo) (hle : lo ≤ hi)
    (hhi : hi ≤ l.length) :
    (l.take lo).drop first ++ (l.take hi).drop lo = (l.take hi).drop first := by
  have hlength : ((l.take hi).take lo).length = lo := by
    simp
    omega
  have hsplit : (l.take hi).take lo ++ (l.take hi).drop lo = l.take hi := List.take_append_drop lo _
  calc (l.take lo).drop first ++ (l.take hi).drop lo
      = ((l.take hi).take lo).drop first ++ (l.take hi).drop lo := by
        rw [List.take_take, min_eq_left hle]
    _ = ((l.take hi).take lo ++ (l.take hi).drop lo).drop first := by
        rw [List.drop_append_of_le_length (by omega)]
    _ = (l.take hi).drop first := by rw [hsplit]

theorem pairwise_extract_iff {xs : Array Nat} {lo hi : Nat} (hhi : hi ≤ xs.size) :
    (xs.extract lo hi).toList.Pairwise (· < ·) ↔
      ∀ k l r s, lo ≤ k → k < l → l < hi → xs[k]? = some r → xs[l]? = some s → r < s := by
  rw [List.pairwise_iff_getElem]
  constructor
  · intro h k l r s hlo hkl hlhi hr hs
    obtain ⟨hk, rfl⟩ := Array.getElem?_eq_some_iff.mp hr
    obtain ⟨hl, rfl⟩ := Array.getElem?_eq_some_iff.mp hs
    have hlt := h (k - lo) (l - lo) (by simp; omega) (by simp; omega) (by omega)
    simp only [Array.getElem_toList, Array.getElem_extract] at hlt
    simpa only [show lo + (k - lo) = k by omega, show lo + (l - lo) = l by omega] using hlt
  · intro h k l hk hl hkl
    simp only [Array.length_toList, Array.size_extract] at hk hl
    simp only [Array.getElem_toList, Array.getElem_extract]
    apply h (lo + k) (lo + l) _ _ (by omega) (by omega) (by omega)
    · apply Array.getElem?_eq_getElem
    · apply Array.getElem?_eq_getElem

/-! ## The owner of a position -/

namespace Ranged

variable {A : Csc T} {j k : Nat}

theorem owns_iff (hA : A.Ranged) :
    A.Owns j k ↔ j < A.cols ∧ A.colPtr.getD j 0 ≤ k ∧ k < A.colPtr.getD (j + 1) 0 := by
  constructor
  · rintro ⟨hj, lo, hi, hbounds, hlo, hhi⟩
    rw [hA.bounds_eq hj] at hbounds
    cases hbounds
    exact ⟨hj, hlo, hhi⟩
  · rintro ⟨hj, hlo, hhi⟩
    exact ⟨hj, _, _, hA.bounds_eq hj, hlo, hhi⟩

theorem first_le_of_owns (hA : A.Ranged) (h : A.Owns j k) : A.colPtr.getD 0 0 ≤ k := by
  obtain ⟨hj, hlo, -⟩ := hA.owns_iff.mp h
  exact (hA.colPtr_mono (Nat.zero_le j) hj.le).trans hlo

theorem lt_size_of_owns (hA : A.Ranged) (h : A.Owns j k) : k < A.rowIdx.size := by
  obtain ⟨hj, -, hhi⟩ := hA.owns_iff.mp h
  exact hhi.trans_le (hA.colPtr_le hj).2

theorem not_owns_of_lt (hA : A.Ranged) {j' : Nat} (hlt : j < j') (h : A.Owns j k) : ¬A.Owns j' k := by
  intro h'
  obtain ⟨-, -, hhi⟩ := hA.owns_iff.mp h
  obtain ⟨hj', hlo, -⟩ := hA.owns_iff.mp h'
  have hle := hA.colPtr_mono (show j + 1 ≤ j' from hlt) hj'.le
  omega

theorem owner_unique (hA : A.Ranged) {j' : Nat} (h : A.Owns j k) (h' : A.Owns j' k) : j = j' := by
  rcases lt_trichotomy j j' with hlt | heq | hgt
  · exact absurd h' (hA.not_owns_of_lt hlt h)
  · exact heq
  · exact absurd h (hA.not_owns_of_lt hgt h')

theorem exists_owner (hA : A.Ranged) (hlo : A.colPtr.getD 0 0 ≤ k) (hhi : k < A.rowIdx.size) :
    ∃ j, A.Owns j k := by
  -- the first column whose end is past the position
  have hbelow : ∀ n ≤ A.cols, k < A.colPtr.getD n 0 → ∃ j, A.Owns j k := by
    intro n
    induction n with
    | zero => intro _ hk; omega
    | succ n ih =>
      intro hn hk
      by_cases hprevious : k < A.colPtr.getD n 0
      · exact ih (by omega) hprevious
      · exact ⟨n, hA.owns_iff.mpr ⟨by omega, by omega, hk⟩⟩
  apply hbelow A.cols le_rfl
  rw [hA.colPtr_cols]
  exact hhi

theorem rows_lt (hA : A.Ranged)
    (hsorted : ∀ j < A.cols, ∃ rows, A.rowsOf j = .ok rows ∧ rows.Pairwise (· < ·)) {l r s : Nat}
    (hk : A.Owns j k) (hl : A.Owns j l) (hkl : k < l) (hr : A.rowIdx[k]? = some r)
    (hs : A.rowIdx[l]? = some s) : r < s := by
  obtain ⟨hj, hlo, -⟩ := hA.owns_iff.mp hk
  obtain ⟨-, -, hhi⟩ := hA.owns_iff.mp hl
  obtain ⟨rows, hrows, hincreasing⟩ := hsorted j hj
  rw [hA.rowsOf_eq hj] at hrows
  cases hrows
  exact (pairwise_extract_iff (hA.colPtr_le hj).2).mp hincreasing k l r s hlo hkl hhi hr hs

/-! ## The columns in order -/

theorem flatMap_entries (hA : A.Ranged) {n : Nat} (hn : n ≤ A.cols) :
    (List.range n).flatMap A.entries =
      (A.stored.take (A.colPtr.getD n 0)).drop (A.colPtr.getD 0 0) := by
  induction n with
  | zero => simp
  | succ n ih =>
    have hfirst := hA.colPtr_mono (Nat.zero_le n) (by omega)
    have hlast := hA.colPtr_le (show n < A.cols by omega)
    rw [List.range_succ, List.flatMap_append, ih (by omega), List.flatMap_singleton, entries_eq]
    exact drop_take_append hfirst hlast.1 (by rw [length_stored hA.size_eq]; exact hlast.2)

/-- **The columns one after the other are the stored entries from the first pointer on.** -/
theorem flatMap_entries_cols (hA : A.Ranged) :
    (List.range A.cols).flatMap A.entries = A.stored.drop (A.colPtr.getD 0 0) := by
  rw [hA.flatMap_entries le_rfl, hA.colPtr_cols, List.take_of_length_le]
  rw [length_stored hA.size_eq]

end Ranged

/-! ## Places of the matrix -/

namespace WellFormed

variable {A : Csc T} {j k : Nat}

theorem mapM_column (hA : A.WellFormed) :
    (List.range A.cols).mapM A.column = .ok ((List.range A.cols).map A.entries) :=
  Checked.mapM_eq_ok _ fun _ hj => hA.column_eq (List.mem_range.mp hj)

theorem entryCount_eq (hA : A.WellFormed) : A.entryCount = .ok A.values.size := by
  unfold entryCount itemAt
  rw [hA.last, ← hA.size_eq]

theorem position_unique (hA : A.WellFormed) {k' i : Nat} (h : A.Owns j k) (h' : A.Owns j k')
    (hrow : A.rowIdx[k]? = some i) (hrow' : A.rowIdx[k']? = some i) : k = k' := by
  rcases lt_trichotomy k k' with hlt | heq | hgt
  · exact absurd (hA.ranged.rows_lt hA.increasing h h' hlt hrow hrow') (lt_irrefl i)
  · exact heq
  · exact absurd (hA.ranged.rows_lt hA.increasing h' h hgt hrow' hrow) (lt_irrefl i)

/-- The entries in columns stand at different places of the matrix. -/
theorem ncard_positions (hA : A.WellFormed) :
    A.positions.ncard + A.colPtr.getD 0 0 = A.values.size := by
  have hplace : ∀ k ∈ Set.Ico (A.colPtr.getD 0 0) A.rowIdx.size,
      ∃ p : Nat × Nat, A.Owns p.2 k ∧ A.rowIdx[k]? = some p.1 := by
    intro k hk
    obtain ⟨j, hj⟩ := hA.ranged.exists_owner hk.1 hk.2
    have hlt : k < A.rowIdx.size := hk.2
    exact ⟨(A.rowIdx[k], j), hj, Array.getElem?_eq_getElem hlt⟩
  choose place hplace using hplace
  have hcount : (Set.Ico (A.colPtr.getD 0 0) A.rowIdx.size).ncard = A.positions.ncard := by
    refine Set.ncard_congr place (fun k hk => ⟨k, hplace k hk⟩) ?_ ?_
    · intro k k' hk hk' heq
      obtain ⟨howns, hrow⟩ := hplace k hk
      obtain ⟨howns', hrow'⟩ := hplace k' hk'
      rw [← heq] at howns' hrow'
      exact hA.position_unique howns howns' hrow hrow'
    · rintro ⟨i, j⟩ ⟨k, howns, hrow⟩
      have hk : k ∈ Set.Ico (A.colPtr.getD 0 0) A.rowIdx.size :=
        ⟨hA.ranged.first_le_of_owns howns, hA.ranged.lt_size_of_owns howns⟩
      obtain ⟨howns', hrow'⟩ := hplace k hk
      refine ⟨k, hk, Prod.ext ?_ (hA.ranged.owner_unique howns' howns)⟩
      exact Option.some.inj (hrow'.symm.trans hrow)
  have hfirst := hA.ranged.colPtr_mono (Nat.zero_le A.cols) le_rfl
  rw [hA.ranged.colPtr_cols] at hfirst
  have hall : (Set.Ico (A.colPtr.getD 0 0) A.rowIdx.size).ncard =
      A.rowIdx.size - A.colPtr.getD 0 0 := by
    rw [Set.ncard_eq_toFinset_card', Set.toFinset_Ico, Nat.card_Ico]
  rw [← hA.size_eq]
  omega

end WellFormed

/-! ## What products read -/

/-- The matrix with another value at a position of the arrays. -/
def withValue (A : Csc T) (k : Nat) (v : T) : Csc T := { A with values := A.values.setIfInBounds k v }

theorem bounds_inside {A : Csc T} {j : Nat} {b : Nat × Nat} (h : A.bounds j = .ok b) :
    j + 1 < A.colPtr.size := by
  obtain ⟨lo, -, h⟩ := Checked.bind_eq_ok.mp h
  obtain ⟨hi, hitem, -⟩ := Checked.bind_eq_ok.mp h
  unfold itemAt at hitem
  split at hitem
  · rename_i hget
    exact (Array.getElem?_eq_some_iff.mp hget).1
  · cases hitem

theorem slice_setIfInBounds {xs : Array T} {k lo : Nat} (hk : k < lo) (v : T) (hi : Nat) :
    slice (xs.setIfInBounds k v) lo hi = slice xs lo hi := by
  unfold slice
  rw [Array.size_setIfInBounds]
  congr 3
  apply Array.ext_getElem?
  intro i
  rw [Array.getElem?_extract, Array.getElem?_extract, Array.size_setIfInBounds,
    Array.getElem?_setIfInBounds_ne (by omega)]

variable {A : Csc T} {k : Nat}

theorem column_withValue (hA : A.Ranged) (hk : k < A.colPtr.getD 0 0) (v : T) (j : Nat) :
    (A.withValue k v).column j = A.column j := by
  have hbounds : (A.withValue k v).bounds j = A.bounds j := rfl
  unfold column
  rw [hbounds]
  cases hcase : A.bounds j with
  | error fault => rfl
  | ok b =>
    have hj := bounds_inside hcase
    have hmono := hA.colPtr_mono (Nat.zero_le j) (by have := hA.pointers; omega)
    rw [hA.bounds_eq (by have := hA.pointers; omega)] at hcase
    cases hcase
    rw [Checked.ok_bind, Checked.ok_bind]
    dsimp only [withValue]
    rw [slice_setIfInBounds (hk.trans_le hmono)]

section

variable [Scalar T]

theorem gemv_withValue (hA : A.Ranged) (hk : k < A.colPtr.getD 0 0) (v : T) :
    (A.withValue k v).gemv = A.gemv := by
  funext y x a b
  unfold gemv scatterColumn
  simp only [column_withValue hA hk v]
  rfl

theorem gemvT_withValue (hA : A.Ranged) (hk : k < A.colPtr.getD 0 0) (v : T) :
    (A.withValue k v).gemvT = A.gemvT := by
  funext y x a b
  unfold gemvT gatherColumn
  simp only [column_withValue hA hk v]
  rfl

theorem symv_withValue (hA : A.Ranged) (hk : k < A.colPtr.getD 0 0) (v : T) :
    (A.withValue k v).symv = A.symv := by
  funext y x a b
  unfold symv scatterBoth
  simp only [column_withValue hA hk v]
  rfl

end

/-! ## The verdict -/

theorem partitioned_iff (hA : A.WellFormed) : A.Partitioned ↔ A.colPtr.getD 0 0 = 0 := by
  have hcount := hA.ncard_positions
  constructor
  · intro h
    by_contra hfirst
    -- the first position is in no column
    have hsize : 0 < A.values.size := by omega
    obtain ⟨j, howns, -⟩ := h.owned 0 hsize
    have := hA.ranged.first_le_of_owns howns
    omega
  · intro hfirst
    refine ⟨fun k hk => ?_, ?_, (List.range A.cols).map A.entries, hA.mapM_column, ?_⟩
    · obtain ⟨j, hj⟩ := hA.ranged.exists_owner (by omega) (hA.size_eq ▸ hk)
      exact ⟨j, hj, fun j' hj' => hA.ranged.owner_unique hj' hj⟩
    · rw [hA.entryCount_eq]
      congr 1
      omega
    · rw [← List.flatMap_def, hA.ranged.flatMap_entries_cols, hfirst, List.drop_zero]

/-- **What a matrix that passes the check says of its entries.** Those from the first pointer on are each in
one column, stand at different places and are read by going through the columns; those before it are in none,
and no product depends on them. -/
theorem columns_of_checkFormat [Scalar T] (h : A.checkFormat = .ok (.ok ())) :
    ∃ first, A.colPtr[0]? = some first ∧ A.entryCount = .ok A.values.size ∧
      (∀ k < A.values.size, (first ≤ k → ∃! j, A.Owns j k) ∧ (k < first → ∀ j, ¬A.Owns j k)) ∧
      A.positions.ncard + first = A.values.size ∧
      (∃ columns, (List.range A.cols).mapM A.column = .ok columns ∧
        columns.flatten = A.stored.drop first) ∧
      (∀ k < first, ∀ v, (A.withValue k v).gemv = A.gemv ∧ (A.withValue k v).gemvT = A.gemvT ∧
        (A.withValue k v).symv = A.symv) ∧
      (A.Partitioned ↔ first = 0) := by
  have hA := wellFormed_of_checkFormat h
  refine ⟨A.colPtr.getD 0 0, ?_, hA.entryCount_eq, fun k hk => ⟨fun hlo => ?_, fun hlt j howns => ?_⟩,
    hA.ncard_positions, ⟨_, hA.mapM_column, ?_⟩, fun k hk v => ?_, partitioned_iff hA⟩
  · have hpointers := hA.pointers
    rw [Array.getD_eq_getD_getElem?, Array.getElem?_eq_getElem (by omega), Option.getD_some]
  · obtain ⟨j, hj⟩ := hA.ranged.exists_owner hlo (hA.size_eq ▸ hk)
    exact ⟨j, hj, fun j' hj' => hA.ranged.owner_unique hj' hj⟩
  · have := hA.ranged.first_le_of_owns howns
    omega
  · rw [← List.flatMap_def]
    exact hA.ranged.flatMap_entries_cols
  · exact ⟨gemv_withValue hA.ranged hk v, gemvT_withValue hA.ranged hk v, symv_withValue hA.ranged hk v⟩

/-- A matrix of one row and one column, whose column begins at the second of two entries. -/
def lateStart : Csc Float := ⟨1, 1, #[1, 2], #[0, 0], #[5, 7]⟩

theorem lateStart_passes : lateStart.checkFormat = .ok (.ok ()) := by
  with_unfolding_all rfl

/-- Two entries are counted, at one place, and no product reads the first. -/
theorem lateStart_columns : lateStart.checkFormat = .ok (.ok ()) ∧ lateStart.entryCount = .ok 2 ∧
    lateStart.positions.ncard = 1 ∧ ∀ v, (lateStart.withValue 0 v).gemv = lateStart.gemv := by
  obtain ⟨first, hfirst, hcount, -, hplaces, -, hproducts, -⟩ := columns_of_checkFormat lateStart_passes
  cases hfirst
  exact ⟨lateStart_passes, hcount, Nat.succ.inj hplaces, fun v => (hproducts 0 one_pos v).1⟩

/-- The check accepts a matrix with an entry in no column. -/
theorem late_start_accepted : lateStart.checkFormat = .ok (.ok ()) ∧ (∀ j, ¬lateStart.Owns j 0) ∧
    ¬lateStart.Partitioned := by
  have hA := wellFormed_of_checkFormat lateStart_passes
  refine ⟨lateStart_passes, fun j howns => ?_, fun hpartitioned => ?_⟩
  · exact absurd (hA.ranged.first_le_of_owns howns) (by decide)
  · exact absurd ((partitioned_iff hA).mp hpartitioned) (by decide)

end QpReferee.Csc

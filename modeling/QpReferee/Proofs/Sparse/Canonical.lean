import Mathlib.Algebra.BigOperators.Fin
import Mathlib.Algebra.BigOperators.Group.List.Lemmas
import QpReferee.Proofs.Ieee.Scalars
import QpReferee.Proofs.Sparse.Faults

/-!
# A dense matrix has one storage

A matrix whose columns are laid out one after the other gives these columns back, and a matrix in format
whose first pointer is zero is determined by what it stores: its columns are ordered by their rows, and its
pointers count their entries. So there is one such matrix for each dense one, if zeros are not stored.

* `Csc.Stores` : a value is stored for a row and a column.
* `Csc.WellFormed.eq_of_stores` : what is stored determines the matrix.
* `Csc.entries_laidOut`, `Csc.ofColumns_eq` : a matrix from its columns.
* `Csc.ofDense_canonical` : **the storage of a dense matrix holds its values other than zero, and is the only
  one.**
-/

namespace QpReferee.Csc

open Float.Model.UnpackedFloat

variable {T : Type}

/-- The matrix stores the value `v` for row `i` and column `j`. -/
def Stores (A : Csc T) (i j : Nat) (v : T) : Prop :=
  ∃ k, A.Owns j k ∧ A.rowIdx[k]? = some i ∧ A.values[k]? = some v

namespace Ranged

variable {A : Csc T}

theorem stores_iff (hA : A.Ranged) {i j : Nat} {v : T} :
    A.Stores i j v ↔ j < A.cols ∧ (i, v) ∈ A.entries j := by
  have hstored (k : Nat) : A.stored[k]? = some (i, v) ↔ A.rowIdx[k]? = some i ∧ A.values[k]? = some v := by
    simp [stored, List.getElem?_zip_eq_some]
  simp only [Stores, hA.owns_iff, ← hstored, entries_eq, List.mem_iff_getElem?, List.getElem?_drop,
    List.getElem?_take]
  constructor
  · rintro ⟨k, ⟨hj, hlo, hhi⟩, hk⟩
    refine ⟨hj, k - A.colPtr.getD j 0, ?_⟩
    rw [show A.colPtr.getD j 0 + (k - A.colPtr.getD j 0) = k by omega, if_pos hhi, hk]
  · rintro ⟨hj, k, hk⟩
    split_ifs at hk with hhi
    exact ⟨_, ⟨hj, Nat.le_add_right _ _, hhi⟩, hk⟩

theorem upper_iff (hA : A.Ranged) : A.Upper ↔ ∀ i j v, A.Stores i j v → i ≤ j := by
  constructor
  · rintro h i j v ⟨k, hk, hrow, -⟩
    exact h j k i hk hrow
  · intro h j k i hk hrow
    have hlt := hA.lt_size_of_owns hk
    exact h i j _ ⟨k, hk, hrow, Array.getElem?_eq_getElem (hA.size_eq ▸ hlt)⟩

end Ranged

/-! ## What is stored determines the matrix -/

theorem Ranged.colPtr_eq {A : Csc T} (hA : A.Ranged) (hfirst : A.colPtr.getD 0 0 = 0) {k : Nat}
    (hk : k ≤ A.cols) : A.colPtr.getD k 0 = ((List.range k).flatMap A.entries).length := by
  have hle := hA.colPtr_mono hk le_rfl
  rw [hA.colPtr_cols, ← length_stored hA.size_eq] at hle
  rw [hA.flatMap_entries hk, hfirst, List.drop_zero, List.length_take, min_eq_left hle]

theorem Ranged.ext {A B : Csc T} (hA : A.Ranged) (hB : B.Ranged) (hrows : A.rows = B.rows)
    (hcols : A.cols = B.cols) (hfirst : A.colPtr.getD 0 0 = 0) (hfirst' : B.colPtr.getD 0 0 = 0)
    (hentries : ∀ j < A.cols, A.entries j = B.entries j) : A = B := by
  have hflatMap : ∀ k ≤ A.cols, (List.range k).flatMap A.entries = (List.range k).flatMap B.entries :=
    fun k hk => List.flatMap_congr fun j hj => hentries j ((List.mem_range.mp hj).trans_le hk)
  have hstored : A.stored = B.stored := by
    have h := hflatMap A.cols le_rfl
    rwa [hA.flatMap_entries_cols, hcols, hB.flatMap_entries_cols, hfirst, hfirst', List.drop_zero,
      List.drop_zero] at h
  have hpointers : A.colPtr = B.colPtr := by
    refine Array.ext (by rw [hA.pointers, hB.pointers, hcols]) fun k hk hk' => ?_
    have hle : k ≤ A.cols := by
      have := hA.pointers
      omega
    have h : A.colPtr.getD k 0 = B.colPtr.getD k 0 := by
      rw [hA.colPtr_eq hfirst hle, hB.colPtr_eq hfirst' (hcols ▸ hle), hflatMap k hle]
    simpa [Array.getD_eq_getD_getElem?, hk, hk'] using h
  obtain ⟨rows, cols, colPtr, rowIdx, values⟩ := A
  obtain ⟨rows', cols', colPtr', rowIdx', values'⟩ := B
  have hsize := hA.size_eq
  have hsize' := hB.size_eq
  dsimp only [stored] at *
  have hrowIdx := congrArg (List.map Prod.fst) hstored
  have hvalues := congrArg (List.map Prod.snd) hstored
  rw [List.map_fst_zip (by simp [hsize]), List.map_fst_zip (by simp [hsize'])] at hrowIdx
  rw [List.map_snd_zip (by simp [hsize]), List.map_snd_zip (by simp [hsize'])] at hvalues
  rw [hrows, hcols, hpointers, Array.toList_inj.mp hrowIdx, Array.toList_inj.mp hvalues]

theorem eq_of_rows {l l' : List (Nat × T)} (hl : (l.map Prod.fst).Pairwise (· < ·))
    (hl' : (l'.map Prod.fst).Pairwise (· < ·)) (h : ∀ e, e ∈ l ↔ e ∈ l') : l = l' := by
  rw [List.pairwise_map] at hl hl'
  refine List.Perm.eq_of_pairwise (fun e e' _ _ hlt hgt => absurd hgt (Nat.lt_asymm hlt)) hl hl' ?_
  exact (List.perm_ext_iff_of_nodup (hl.imp fun hlt heq => Nat.ne_of_lt hlt (congrArg Prod.fst heq))
    (hl'.imp fun hlt heq => Nat.ne_of_lt hlt (congrArg Prod.fst heq))).mpr h

/-- A matrix in format that leaves nothing out is determined by what it stores. -/
theorem WellFormed.eq_of_stores {A B : Csc T} (hA : A.WellFormed) (hB : B.WellFormed)
    (hrows : A.rows = B.rows) (hcols : A.cols = B.cols) (hfirst : A.colPtr.getD 0 0 = 0)
    (hfirst' : B.colPtr.getD 0 0 = 0) (hstores : ∀ i j v, A.Stores i j v ↔ B.Stores i j v) : A = B := by
  refine hA.ranged.ext hB.ranged hrows hcols hfirst hfirst' fun j hj => ?_
  refine eq_of_rows (hA.increasing_entries hj) (hB.increasing_entries (hcols ▸ hj)) fun (i, v) => ?_
  have h := hstores i j v
  rwa [hA.ranged.stores_iff, hB.ranged.stores_iff, and_iff_right hj, and_iff_right (hcols ▸ hj)] at h

/-! ## Matrices laid out from their columns -/

theorem length_runningTotals (start : Nat) (ns : List Nat) :
    (runningTotals start ns).length = ns.length + 1 := by
  induction ns generalizing start with
  | nil => rfl
  | cons n ns ih => rw [runningTotals, List.length_cons, ih, List.length_cons]

theorem getElem?_runningTotals (start : Nat) (ns : List Nat) {k : Nat} (hk : k ≤ ns.length) :
    (runningTotals start ns)[k]? = some (start + (ns.take k).sum) := by
  induction ns generalizing start k with
  | nil =>
    obtain rfl : k = 0 := by simpa using hk
    rfl
  | cons n ns ih =>
    cases k with
    | zero => rfl
    | succ k =>
      rw [runningTotals, List.getElem?_cons_succ, ih (start + n) (by simpa using hk),
        List.take_succ_cons, List.sum_cons, Nat.add_assoc]

theorem pairwise_runningTotals (start : Nat) (ns : List Nat) :
    (runningTotals start ns).Pairwise (· ≤ ·) ∧ ∀ t ∈ runningTotals start ns, start ≤ t := by
  induction ns generalizing start with
  | nil => simp [runningTotals]
  | cons n ns ih =>
    obtain ⟨hpairwise, hle⟩ := ih (start + n)
    have hlater : ∀ t ∈ runningTotals (start + n) ns, start ≤ t :=
      fun t ht => (Nat.le_add_right start n).trans (hle t ht)
    exact ⟨List.pairwise_cons.mpr ⟨hlater, hpairwise⟩, List.forall_mem_cons.mpr ⟨le_rfl, hlater⟩⟩

def laidOut (rows : Nat) (columns : List (List (Nat × T))) : Csc T where
  rows
  cols := columns.length
  colPtr := (runningTotals 0 (columns.map List.length)).toArray
  rowIdx := columns.flatten.toArray.map Prod.fst
  values := columns.flatten.toArray.map Prod.snd

section

variable {rows : Nat} {columns : List (List (Nat × T))}

theorem getElem?_colPtr_laidOut {j : Nat} (hj : j ≤ columns.length) :
    (laidOut rows columns).colPtr[j]? = some ((columns.map List.length).take j).sum := by
  have hle : j ≤ (columns.map List.length).length := by simpa using hj
  have h := getElem?_runningTotals 0 _ hle
  rw [Nat.zero_add] at h
  simpa [laidOut] using h

theorem getD_colPtr_laidOut {j : Nat} (hj : j ≤ columns.length) :
    (laidOut rows columns).colPtr.getD j 0 = ((columns.map List.length).take j).sum := by
  rw [Array.getD_eq_getD_getElem?, getElem?_colPtr_laidOut hj, Option.getD_some]

theorem ranged_laidOut (rows : Nat) (columns : List (List (Nat × T))) : (laidOut rows columns).Ranged where
  size_eq := by simp only [laidOut, Array.size_map]
  pointers := by simp [laidOut, length_runningTotals]
  last := by
    show (laidOut rows columns).colPtr[columns.length]? = _
    rw [getElem?_colPtr_laidOut le_rfl, List.take_of_length_le (by simp)]
    simp only [laidOut, Array.size_map, List.size_toArray, List.length_flatten]
  ascending := by simpa [laidOut] using (pairwise_runningTotals 0 _).1

theorem stored_laidOut (rows : Nat) (columns : List (List (Nat × T))) :
    (laidOut rows columns).stored = columns.flatten := by
  simp only [stored, laidOut, Array.toList_map, List.zip_map', List.map_id']

theorem entries_laidOut {j : Nat} (hj : j < columns.length) :
    (laidOut rows columns).entries j = columns[j] := by
  rw [entries_eq, stored_laidOut, getD_colPtr_laidOut (by omega), getD_colPtr_laidOut (by omega),
    List.drop_take_succ_flatten_eq_getElem]

theorem ofColumns_eq (h : columns.length + 1 < wordRange) :
    ofColumns rows columns = .ok (laidOut rows columns) := by
  have hranged := ranged_laidOut rows columns
  have hpointers : (laidOut rows columns).colPtr.size = columns.length + 1 := hranged.pointers
  have hlast : itemAt (laidOut rows columns).colPtr columns.length =
      .ok (laidOut rows columns).rowIdx.size := by
    rw [itemAt, show (laidOut rows columns).colPtr[columns.length]? = _ from hranged.last]
  show build rows columns.length (laidOut rows columns).colPtr (laidOut rows columns).rowIdx
    (laidOut rows columns).values = _
  unfold build
  rw [demand_of hranged.size_eq, Checked.ok_bind, show checkedAdd columns.length 1 = _ from if_pos h,
    Checked.ok_bind, demand_of hpointers, Checked.ok_bind, hlast, Checked.ok_bind,
    demand_of rfl, Checked.ok_bind]
  rfl

theorem wellFormed_laidOut (hcolumns : ∀ column ∈ columns,
    (column.map Prod.fst).Pairwise (· < ·) ∧ ∀ e ∈ column, e.1 < rows) :
    (laidOut rows columns).WellFormed where
  size_eq := (ranged_laidOut rows columns).size_eq
  pointers := (ranged_laidOut rows columns).pointers
  last := (ranged_laidOut rows columns).last
  ascending := (ranged_laidOut rows columns).ascending
  increasing j hj := by
    have hj : j < columns.length := hj
    refine ⟨_, (ranged_laidOut rows columns).rowsOf_entries hj, ?_⟩
    rw [entries_laidOut hj]
    exact (hcolumns _ (List.getElem_mem hj)).1
  bounded i hi := by
    simp only [laidOut, Array.mem_map, List.mem_toArray, List.mem_flatten] at hi
    obtain ⟨e, ⟨column, hcolumn, he⟩, rfl⟩ := hi
    exact (hcolumns column hcolumn).2 e he

end

/-! ## The columns of a dense matrix -/

section

variable [Scalar T] {m n : Nat} {data : Array T}

theorem mem_denseColumn {j i : Nat} {v : T} :
    (i, v) ∈ denseColumn m n data j ↔ i < m ∧ data[i * n + j]? = some v ∧ Scalar.eq v 0 = false := by
  unfold denseColumn
  simp only [List.mem_filterMap, List.mem_range]
  constructor
  · rintro ⟨i', hi, h⟩
    split at h
    · next w hw =>
      split_ifs at h with hzero
      cases h
      exact ⟨hi, hw, Bool.eq_false_iff.mpr hzero⟩
    · cases h
  · rintro ⟨hi, hv, hzero⟩
    refine ⟨i, hi, ?_⟩
    rw [hv]
    dsimp only
    rw [hzero]
    rfl

theorem pairwise_denseColumn (m n : Nat) (data : Array T) (j : Nat) :
    ((denseColumn m n data j).map Prod.fst).Pairwise (· < ·) := by
  rw [List.pairwise_map]
  unfold denseColumn
  rw [List.pairwise_filterMap]
  refine List.pairwise_lt_range.imp fun {i k} hik e he e' he' => ?_
  split at he <;> split at he'
  · split_ifs at he he' with h1 h2
    cases he
    cases he'
    exact hik
  all_goals simp at he he'

theorem countP_range (p : Nat → Bool) (m : Nat) :
    (List.range m).countP p = ∑ i ∈ Finset.range m, if p i then 1 else 0 := by
  induction m with
  | zero => rfl
  | succ m ih =>
    rw [List.range_succ, List.countP_append, ih, Finset.sum_range_succ, List.countP_singleton]

theorem length_denseColumn (m n : Nat) (data : Array T) (j : Nat) :
    (denseColumn m n data j).length = ∑ i ∈ Finset.range m,
      if data[i * n + j]?.any fun v => !Scalar.eq v 0 then 1 else 0 := by
  unfold denseColumn
  rw [List.length_filterMap_eq_countP, countP_range]
  refine Finset.sum_congr rfl fun i _ => ?_
  cases data[i * n + j]? with
  | none => rfl
  | some v => cases hzero : Scalar.eq v 0 <;> simp [hzero]

theorem sum_range_mul (g : Nat → Nat) (m n : Nat) :
    ∑ k ∈ Finset.range (m * n), g k = ∑ i ∈ Finset.range m, ∑ j ∈ Finset.range n, g (i * n + j) := by
  induction m with
  | zero => simp
  | succ m ih => rw [Nat.succ_mul, Finset.sum_range_add, ih, Finset.sum_range_succ]

omit [Scalar T] in
theorem countP_array (p : T → Bool) (data : Array T) :
    data.countP p = ∑ k ∈ Finset.range data.size, if data[k]?.any p then 1 else 0 := by
  have hmap : data.toList.map some = (List.range data.size).map fun k => data[k]? := by
    refine List.ext_getElem (by simp) fun k hk _ => ?_
    simp at hk
    simp [hk]
  have hcount := congrArg (List.countP fun v : Option T => v.any p) hmap
  rw [List.countP_map, List.countP_map] at hcount
  rw [← Array.countP_toList, ← countP_range]
  exact hcount

theorem length_flatten_denseColumns (hsize : data.size = m * n) :
    ((List.range n).map (denseColumn m n data)).flatten.length = data.countP fun v => !Scalar.eq v 0 := by
  have hsum (f : Nat → Nat) : ((List.range n).map f).sum = ∑ j ∈ Finset.range n, f j := rfl
  rw [countP_array, hsize, sum_range_mul, Finset.sum_comm, List.length_flatten, List.map_map, hsum]
  exact Finset.sum_congr rfl fun j _ => length_denseColumn m n data j

/-- The matrix that is stored for a dense one. -/
def ofRows (m n : Nat) (data : Array T) : Csc T := laidOut m ((List.range n).map (denseColumn m n data))

theorem ofDense_eq (hsize : data.size = m * n) (hrange : m * n < wordRange) (hcols : n + 1 < wordCapacity) :
    ofDense m n data = .ok (ofRows m n data) := by
  have hwide : n + 1 < wordRange := hcols.trans (by decide)
  unfold ofDense demandCapacity
  rw [show checkedMul m n = _ from if_pos hrange, Checked.ok_bind, demand_of hsize, Checked.ok_bind,
    show checkedAdd n 1 = _ from if_pos hwide, Checked.ok_bind, demand_of hcols, Checked.ok_bind,
    ofColumns_eq (by simpa using hwide)]
  rfl

theorem ofDense_stops (hsize : data.size ≠ m * n) : ∃ fault, ofDense m n data = .error fault := by
  unfold ofDense
  by_cases hrange : m * n < wordRange
  · rw [show checkedMul m n = _ from if_pos hrange, Checked.ok_bind, demand_of_not hsize]
    exact ⟨_, rfl⟩
  · rw [show checkedMul m n = _ from if_neg hrange]
    exact ⟨_, rfl⟩

theorem entries_ofRows {j : Nat} (hj : j < n) : (ofRows m n data).entries j = denseColumn m n data j := by
  unfold ofRows
  rw [entries_laidOut (by simpa using hj), List.getElem_map, List.getElem_range]

theorem ranged_ofRows (m n : Nat) (data : Array T) : (ofRows m n data).Ranged := ranged_laidOut _ _

theorem cols_ofRows : (ofRows m n data).cols = n := by simp [ofRows, laidOut]

theorem wellFormed_ofRows (m n : Nat) (data : Array T) : (ofRows m n data).WellFormed := by
  unfold ofRows
  refine wellFormed_laidOut fun column hcolumn => ?_
  obtain ⟨j, -, rfl⟩ := List.mem_map.mp hcolumn
  exact ⟨pairwise_denseColumn m n data j, fun (i, v) he => (mem_denseColumn.mp he).1⟩

theorem stores_ofRows {i j : Nat} {v : T} : (ofRows m n data).Stores i j v ↔
    i < m ∧ j < n ∧ data[i * n + j]? = some v ∧ Scalar.eq v 0 = false := by
  rw [(ranged_ofRows m n data).stores_iff, cols_ofRows]
  constructor
  · rintro ⟨hj, he⟩
    rw [entries_ofRows hj, mem_denseColumn] at he
    exact ⟨he.1, hj, he.2⟩
  · rintro ⟨hi, hj, he⟩
    refine ⟨hj, ?_⟩
    rw [entries_ofRows hj]
    exact mem_denseColumn.mpr ⟨hi, he⟩

theorem entryCount_ofRows (hsize : data.size = m * n) :
    (ofRows m n data).entryCount = .ok (data.countP fun v => !Scalar.eq v 0) := by
  rw [(wellFormed_ofRows m n data).entryCount_eq, ← length_flatten_denseColumns hsize]
  simp only [ofRows, laidOut, Array.size_map, List.size_toArray]

theorem exists_isUpper_ofRows : ∃ upper, (ofRows m n data).isUpper = .ok upper ∧ (upper = true ↔
    ∀ i j v, j < i → i < m → j < n → data[i * n + j]? = some v → Scalar.eq v 0 = true) := by
  obtain ⟨upper, hupper⟩ := (ranged_ofRows m n data).exists_isUpper
  have hiff := (ranged_ofRows m n data).isUpper_iff
  rw [hupper, (ranged_ofRows m n data).upper_iff] at hiff
  refine ⟨upper, hupper, Except.ok.injEq _ _ ▸ hiff.trans ?_⟩
  simp only [stores_ofRows]
  constructor
  · intro h i j v hlt hi hj hv
    by_contra hzero
    exact absurd (h i j v ⟨hi, hj, hv, Bool.eq_false_iff.mpr hzero⟩) (not_le.mpr hlt)
  · rintro h i j v ⟨hi, hj, hv, hzero⟩
    by_contra hlt
    rw [h i j v (not_le.mp hlt) hi hj hv] at hzero
    cases hzero

theorem WellFormed.eq_ofRows {B : Csc T} (hB : B.WellFormed) (hrows : B.rows = m) (hcols : B.cols = n)
    (hfirst : B.colPtr.getD 0 0 = 0) (hnonzero : ∀ v ∈ B.values, Scalar.eq v 0 = false)
    (hstores : ∀ i j v, Scalar.eq v 0 = false → (B.Stores i j v ↔ (ofRows m n data).Stores i j v)) :
    B = ofRows m n data := by
  have hfirst' : (ofRows m n data).colPtr.getD 0 0 = 0 := by
    rw [ofRows, getD_colPtr_laidOut (Nat.zero_le _), List.take_zero, List.sum_nil]
  refine hB.eq_of_stores (wellFormed_ofRows m n data) hrows (hcols.trans cols_ofRows.symm) hfirst hfirst'
    fun i j v => ?_
  by_cases hzero : Scalar.eq v 0 = false
  · exact hstores i j v hzero
  · refine iff_of_false ?_ ?_
    · rintro ⟨k, -, -, hv⟩
      exact hzero (hnonzero v (Array.mem_of_getElem? hv))
    · rw [stores_ofRows]
      exact fun h => hzero h.2.2.2

theorem eq_zero_iff [IeeeScalar T] {v : T} : Scalar.eq v 0 = true ↔
    ∃ sign, unpack (IeeeScalar.format T) (IeeeScalar.bits v) = .zero sign := by
  rw [IeeeScalar.eq, IeeeScalar.zero]
  generalize unpack (IeeeScalar.format T) (IeeeScalar.bits v) = u
  cases u with
  | notANumber => exact iff_of_false (by decide) (by simp)
  | infinity s => exact iff_of_false (by cases s <;> decide) (by simp)
  | zero s => exact iff_of_true (by cases s <;> decide) ⟨s, rfl⟩
  | finite s m e hm => exact iff_of_false (by cases s <;> exact Bool.false_ne_true) (by simp)

/-- **A dense matrix is stored in one way.** Its storage is in format and holds exactly the values other than
zero, so a value that is no number, and neither of the two zeros; and no other matrix in format that leaves
nothing out holds the same. -/
theorem ofDense_canonical (m n : Nat) (data : Array T) :
    (data.size ≠ m * n → ∃ fault, ofDense m n data = .error fault) ∧
    (data.size = m * n → m * n < wordRange → n + 1 < wordCapacity →
      ∃ A, ofDense m n data = .ok A ∧ A.rows = m ∧ A.cols = n ∧ A.checkFormat = .ok (.ok ()) ∧
        (∀ i j v, A.Stores i j v ↔
          i < m ∧ j < n ∧ data[i * n + j]? = some v ∧ Scalar.eq v 0 = false) ∧
        (∀ [IeeeScalar T] (i j : Nat) (v : T), i < m → j < n → data[i * n + j]? = some v →
          (A.Stores i j v ↔
            ∀ sign, unpack (IeeeScalar.format T) (IeeeScalar.bits v) ≠ .zero sign)) ∧
        A.entryCount = .ok (data.countP fun v => !Scalar.eq v 0) ∧
        (∃ upper, A.isUpper = .ok upper ∧ (upper = true ↔
          ∀ i j v, j < i → i < m → j < n → data[i * n + j]? = some v → Scalar.eq v 0 = true)) ∧
        ∀ B : Csc T, B.rows = m → B.cols = n → B.checkFormat = .ok (.ok ()) →
          B.colPtr[0]? = some 0 → (∀ v ∈ B.values, Scalar.eq v 0 = false) →
          (∀ i j v, Scalar.eq v 0 = false → (B.Stores i j v ↔ A.Stores i j v)) → B = A) := by
  refine ⟨ofDense_stops, fun hsize hrange hcols => ?_⟩
  have hwide : (ofRows m n data).cols + 1 < wordRange := by
    rw [cols_ofRows]
    exact hcols.trans (by decide)
  refine ⟨_, ofDense_eq hsize hrange hcols, rfl, cols_ofRows,
    (wellFormed_ofRows m n data).checkFormat_eq hwide, fun i j v => stores_ofRows,
    fun i j v hi hj hv => ?_, entryCount_ofRows hsize, exists_isUpper_ofRows, ?_⟩
  · rw [stores_ofRows, ← Bool.not_eq_true, eq_zero_iff, not_exists]
    simp only [hi, hj, hv, true_and]
  · intro B hrows hcols hformat hpointer hnonzero hstores
    have hfirst : B.colPtr.getD 0 0 = 0 := by
      rw [Array.getD_eq_getD_getElem?, hpointer, Option.getD_some]
    exact (wellFormed_of_checkFormat hformat).eq_ofRows hrows hcols hfirst hnonzero hstores

end

/-- A dense matrix with a value that is no number, and with a zero below the diagonal. -/
def speckled : Array Float := #[1, 0 / 0, -0, 3]

def speckledColumns : Csc Float := ⟨2, 2, #[0, 1, 3], #[0, 0, 1], #[1, 0 / 0, 3]⟩

theorem speckled_stored : ofDense 2 2 speckled = .ok speckledColumns ∧
    speckledColumns.entryCount = .ok 3 ∧ speckledColumns.isUpper = .ok true ∧
    ofDense 2 3 speckled = .error .length := by
  have hformat : speckledColumns.checkFormat = .ok (.ok ()) := by with_unfolding_all rfl
  obtain ⟨A, hA, -, -, -, hstores, -, -, -, hunique⟩ :=
    (ofDense_canonical 2 2 speckled).2 rfl (by decide) (by decide)
  have hnonzero : ∀ v ∈ speckledColumns.values, Scalar.eq v 0 = false := by
    simp only [speckledColumns, List.mem_toArray, List.forall_mem_cons]
    refine ⟨?_, ?_, ?_, by simp⟩ <;> with_unfolding_all rfl
  have hsame : speckledColumns = A := by
    refine hunique speckledColumns rfl rfl hformat rfl hnonzero fun i j v hv => ?_
    rw [hstores, (wellFormed_of_checkFormat hformat).ranged.stores_iff]
    have hcols : speckledColumns.cols = 2 := rfl
    have hzero : v ≠ -0 := by
      rintro rfl
      cases hv
    have hleft : speckledColumns.entries 0 = [(0, 1)] := rfl
    have hright : speckledColumns.entries 1 = [(0, 0 / 0), (1, 3)] := rfl
    rcases j with _ | _ | j <;> rcases i with _ | _ | i
    all_goals simp [hcols, hleft, hright, hzero, speckled, hv, eq_comm]
  refine ⟨hsame ▸ hA, rfl, rfl, ?_⟩
  rfl

end QpReferee.Csc

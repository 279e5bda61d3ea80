import QpReferee.Proofs.Sparse.Format
import QpReferee.Sparse.Product

/-!
# The products of a matrix in format

For a matrix in format and vectors of the right lengths no product stops, whatever the scalars are. Each
is then equal to its loop without checks, from which its values are computed elsewhere.

* `getD_foldl_addends` : a loop of additions, as one entry sees it.
* `Csc.WellFormed.gemv_eq`, `Csc.WellFormed.gemvT_eq`, `Csc.WellFormed.symv_eq` : the products as plain
  loops.
* `Csc.WellFormed.exists_gemv`, `Csc.WellFormed.exists_gemvT`, `Csc.WellFormed.exists_upperSymv` : the
  products exist and have the right lengths.
-/

namespace QpReferee

variable {T : Type} [Scalar T]

theorem length_scaleOrReset (b : T) (y : List T) : (scaleOrReset b y).length = y.length := by
  unfold scaleOrReset
  split_ifs <;> simp

theorem addAt_eq {y : Array T} {i : Nat} (h : i < y.size) (d : T) :
    addAt y i d = .ok (y.modify i (· + d)) :=
  if_pos h

/-! ## One entry of a loop -/

theorem getD_modify_addends (y : Array T) (k : Nat) (d : T) {i : Nat} (hi : i < y.size) :
    (y.modify k (· + d)).getD i 0 = (if k = i then [d] else []).foldl (· + ·) (y.getD i 0) := by
  rw [Array.getD_eq_getD_getElem?, Array.getD_eq_getD_getElem?, Array.getElem?_modify,
    Array.getElem?_eq_getElem hi]
  split_ifs <;> rfl

/-- A loop adds to an entry what its steps add to it, in their order. -/
theorem getD_foldl_addends {α : Type} {f : Array T → α → Array T} {i : Nat} (d : α → List T) (l : List α)
    (hsize : ∀ y, ∀ e ∈ l, (f y e).size = y.size)
    (hstep : ∀ y, i < y.size → ∀ e ∈ l, (f y e).getD i 0 = (d e).foldl (· + ·) (y.getD i 0)) {y : Array T}
    (hi : i < y.size) : (l.foldl f y).getD i 0 = (l.flatMap d).foldl (· + ·) (y.getD i 0) := by
  induction l generalizing y with
  | nil => rfl
  | cons e l ih =>
    rw [List.foldl_cons, ih (fun y e he => hsize y e (List.mem_cons_of_mem _ he))
      (fun y hy e he => hstep y hy e (List.mem_cons_of_mem _ he))
      (by rw [hsize y e List.mem_cons_self]; exact hi), hstep y hi e List.mem_cons_self,
      List.flatMap_cons, List.foldl_append]

namespace Csc

/-! ## The loops without checks -/

/-- `y` with `a` times column `j` times `xj` added. -/
def scattered (A : Csc T) (a : T) (y : Array T) (xj : T) (j : Nat) : Array T :=
  (A.entries j).foldl (fun y e => y.modify e.1 (· + a * e.2 * xj)) y

/-- `y` with `a · A · x` added, column by column. -/
def scatteredAll (A : Csc T) (a : T) (y : Array T) (x : List T) : Array T :=
  x.zipIdx.foldl (fun y (xj, j) => A.scattered a y xj j) y

/-- The product of column `j`, as a row, with `x`. -/
def gathered (A : Csc T) (x : Array T) (j : Nat) : T :=
  (A.entries j).foldl (fun acc e => acc + e.2 * x.getD e.1 0) 0

/-- One entry of column `j`, added at its own place and, off the diagonal, at the transposed one. -/
def scatteredEntry (a : T) (x : Array T) (xj : T) (j : Nat) (y : Array T) (e : Nat × T) : Array T :=
  let y := y.modify e.1 (· + a * e.2 * xj)
  if e.1 = j then y else y.modify j (· + a * e.2 * x.getD e.1 0)

/-- What one entry of column `j` adds to entry `i`: at its own row, and off the diagonal at its column. -/
def addendsOf (a : T) (x : Array T) (xj : T) (i j : Nat) (e : Nat × T) : List T :=
  (if e.1 = i then [a * e.2 * xj] else []) ++
    if e.1 = j then [] else if j = i then [a * e.2 * x.getD e.1 0] else []

/-- `y` with the entries of all columns added, each at both of its places. -/
def scatteredBoth (A : Csc T) (a : T) (x : Array T) (y : Array T) : Array T :=
  x.toList.zipIdx.foldl (fun y (xj, j) => (A.entries j).foldl (scatteredEntry a x xj j) y) y

theorem size_scatteredEntry (a : T) (x : Array T) (xj : T) (j : Nat) (y : Array T) (e : Nat × T) :
    (scatteredEntry a x xj j y e).size = y.size := by
  unfold scatteredEntry
  split_ifs <;> simp

omit [Scalar T] in
theorem size_foldl_modify {α : Type} (l : List α) (place : α → Nat) (change : α → T → T) (y : Array T) :
    (l.foldl (fun y e => y.modify (place e) (change e)) y).size = y.size := by
  induction l generalizing y with
  | nil => rfl
  | cons e l ih => rw [List.foldl_cons, ih, Array.size_modify]

theorem getD_scatteredEntry_addends (a : T) (x : Array T) (xj : T) (j : Nat) {y : Array T} (e : Nat × T)
    {i : Nat} (hi : i < y.size) : (scatteredEntry a x xj j y e).getD i 0 =
      (addendsOf a x xj i j e).foldl (· + ·) (y.getD i 0) := by
  unfold scatteredEntry addendsOf
  rw [List.foldl_append, ← getD_modify_addends y e.1 _ hi]
  dsimp only
  by_cases hdiag : e.1 = j
  · rw [if_pos hdiag, if_pos hdiag]
    rfl
  · rw [if_neg hdiag, if_neg hdiag, getD_modify_addends _ j _ (by rwa [Array.size_modify])]

/-! ## The checks never stop a loop -/

namespace WellFormed

variable {A : Csc T} {j : Nat}

theorem scatterColumn_eq (hA : A.WellFormed) (hj : j < A.cols) (a xj : T) {y : Array T}
    (hy : y.size = A.rows) :
    A.scatterColumn a y xj j = .ok (A.scattered a y xj j) ∧ (A.scattered a y xj j).size = A.rows := by
  unfold scatterColumn scattered
  rw [hA.column_eq hj, Checked.ok_bind]
  refine Checked.foldlM_eq_ok (fun y : Array T => y.size = A.rows) _ (fun y hy e he => ?_) hy
  refine ⟨addAt_eq ?_ _, by simpa using hy⟩
  rw [hy]
  exact hA.lt_of_mem_entries he

theorem scatterBoth_eq (hA : A.WellFormed) (hsquare : A.rows = A.cols) (hj : j < A.cols) (a xj : T)
    {x y : Array T} (hx : x.size = A.cols) (hy : y.size = A.cols) :
    A.scatterBoth a x y xj j = .ok ((A.entries j).foldl (scatteredEntry a x xj j) y) ∧
      ((A.entries j).foldl (scatteredEntry a x xj j) y).size = A.cols := by
  unfold scatterBoth
  rw [hA.column_eq hj, Checked.ok_bind]
  refine Checked.foldlM_eq_ok (fun y : Array T => y.size = A.cols) _ (fun y hy e he => ?_) hy
  have hrow : e.1 < A.cols := hsquare ▸ hA.lt_of_mem_entries he
  refine ⟨?_, by rw [size_scatteredEntry, hy]⟩
  obtain ⟨i, v⟩ := e
  dsimp only [scatteredEntry] at hrow ⊢
  rw [addAt_eq (by omega), Checked.ok_bind]
  split_ifs with hdiag
  · rfl
  · rw [itemAt_eq (by omega), Checked.ok_bind, addAt_eq (by simp; omega)]
    simp [Array.getD_eq_getD_getElem?, hx, hrow]

theorem gatherColumn_eq (hA : A.WellFormed) (hj : j < A.cols) {x : Array T} (hx : x.size = A.rows) :
    A.gatherColumn x j = .ok (A.gathered x j) := by
  unfold gatherColumn gathered
  rw [hA.column_eq hj, Checked.ok_bind]
  refine (Checked.foldlM_eq_ok (fun _ => True) _ (fun acc _ e he => ⟨?_, trivial⟩) trivial).1
  obtain ⟨i, v⟩ := e
  have hrow : i < x.size := hx ▸ hA.lt_of_mem_entries he
  dsimp only
  rw [itemAt_eq hrow, Checked.ok_bind, Array.getD_eq_getD_getElem?, Array.getElem?_eq_getElem hrow,
    Option.getD_some]
  rfl

theorem gemv_eq (hA : A.WellFormed) {x y : List T} (hx : x.length = A.cols) (hy : y.length = A.rows)
    (a b : T) :
    A.gemv y x a b = .ok (if Scalar.eq a 0 then scaleOrReset b y
      else (A.scatteredAll a (scaleOrReset b y).toArray x).toList) := by
  unfold gemv
  rw [demand_of hx, demand_of hy, Checked.ok_bind, Checked.ok_bind]
  dsimp only
  split_ifs with ha
  · rfl
  · have hloop := Checked.foldlM_eq_ok (fun y : Array T => y.size = A.rows)
      (f := fun y (e : T × Nat) => A.scatterColumn a y e.1 e.2)
      (g := fun y (e : T × Nat) => A.scattered a y e.1 e.2) x.zipIdx
      (fun y hy e he => hA.scatterColumn_eq (hx ▸ List.snd_lt_of_mem_zipIdx he) a e.1 hy)
      (s := (scaleOrReset b y).toArray) (by simpa [length_scaleOrReset] using hy)
    rw [hloop.1, Checked.ok_bind]
    rfl

theorem gemvT_eq (hA : A.WellFormed) {x y : List T} (hx : x.length = A.rows) (hy : y.length = A.cols)
    (a b : T) :
    A.gemvT y x a b = .ok (if Scalar.eq a 0 then scaleOrReset b y
      else (scaleOrReset b y).zipIdx.map fun e => e.1 + a * A.gathered x.toArray e.2) := by
  unfold gemvT
  rw [demand_of hx, demand_of hy, Checked.ok_bind, Checked.ok_bind]
  dsimp only
  split_ifs with ha
  · rfl
  · refine Checked.mapM_eq_ok _ fun e he => ?_
    have hj : e.2 < A.cols := by
      rw [← hy, ← length_scaleOrReset b y]
      exact List.snd_lt_of_mem_zipIdx he
    rw [hA.gatherColumn_eq hj (by simpa using hx), Checked.ok_bind]
    rfl

theorem symv_eq (hA : A.WellFormed) (hsquare : A.rows = A.cols) {x y : List T} (hx : x.length = A.cols)
    (hy : y.length = A.cols) (a b : T) :
    A.symv y x a b = .ok (A.scatteredBoth a x.toArray (scaleOrReset b y).toArray).toList := by
  unfold symv
  rw [demand_of hsquare, demand_of hx, demand_of hy, Checked.ok_bind, Checked.ok_bind, Checked.ok_bind]
  dsimp only
  have hloop := Checked.foldlM_eq_ok (fun y : Array T => y.size = A.cols)
    (f := fun y (e : T × Nat) => A.scatterBoth a x.toArray y e.1 e.2)
    (g := fun y (e : T × Nat) => (A.entries e.2).foldl (scatteredEntry a x.toArray e.1 e.2) y) x.zipIdx
    (fun y hy e he => hA.scatterBoth_eq hsquare (hx ▸ List.snd_lt_of_mem_zipIdx he) a e.1
      (by simpa using hx) hy)
    (s := (scaleOrReset b y).toArray) (by simpa [length_scaleOrReset] using hy)
  rw [hloop.1, Checked.ok_bind]
  rfl

end WellFormed

theorem upperSymv_eq_symv {A : Csc T} (hupper : A.isUpper = .ok true) (y x : List T) (a b : T) :
    A.upperSymv y x a b = A.symv y x a b := by
  unfold upperSymv demandUpper
  rw [hupper, Checked.ok_bind]
  rfl

/-! ## Lengths -/

theorem size_scattered (A : Csc T) (a : T) (y : Array T) (xj : T) (j : Nat) :
    (A.scattered a y xj j).size = y.size :=
  size_foldl_modify _ _ _ y

theorem size_scatteredAll (A : Csc T) (a : T) (y : Array T) (x : List T) :
    (A.scatteredAll a y x).size = y.size := by
  unfold scatteredAll
  generalize x.zipIdx = l
  induction l generalizing y with
  | nil => rfl
  | cons e l ih => rw [List.foldl_cons, ih, size_scattered]

theorem size_foldl_scatteredEntry (a : T) (x : Array T) (xj : T) (j : Nat) (l : List (Nat × T))
    (y : Array T) : (l.foldl (scatteredEntry a x xj j) y).size = y.size := by
  induction l generalizing y with
  | nil => rfl
  | cons e l ih => rw [List.foldl_cons, ih, size_scatteredEntry]

theorem size_scatteredBoth (A : Csc T) (a : T) (x y : Array T) :
    (A.scatteredBoth a x y).size = y.size := by
  unfold scatteredBoth
  generalize x.toList.zipIdx = l
  induction l generalizing y with
  | nil => rfl
  | cons e l ih => rw [List.foldl_cons, ih, size_foldl_scatteredEntry]

namespace WellFormed

variable {A : Csc T} {x y : List T}

theorem exists_gemv (hA : A.WellFormed) (hx : x.length = A.cols) (hy : y.length = A.rows) (a b : T) :
    ∃ z, A.gemv y x a b = .ok z ∧ z.length = A.rows := by
  refine ⟨_, hA.gemv_eq hx hy a b, ?_⟩
  split_ifs
  · rw [length_scaleOrReset, hy]
  · rw [Array.length_toList, size_scatteredAll, List.size_toArray, length_scaleOrReset, hy]

theorem exists_gemvT (hA : A.WellFormed) (hx : x.length = A.rows) (hy : y.length = A.cols) (a b : T) :
    ∃ z, A.gemvT y x a b = .ok z ∧ z.length = A.cols := by
  refine ⟨_, hA.gemvT_eq hx hy a b, ?_⟩
  split_ifs
  · rw [length_scaleOrReset, hy]
  · rw [List.length_map, List.length_zipIdx, length_scaleOrReset, hy]

theorem exists_upperSymv (hA : A.WellFormed) (hsquare : A.rows = A.cols) (hupper : A.isUpper = .ok true)
    (hx : x.length = A.cols) (hy : y.length = A.cols) (a b : T) :
    ∃ z, A.upperSymv y x a b = .ok z ∧ z.length = A.cols := by
  refine ⟨_, (upperSymv_eq_symv hupper y x a b).trans (hA.symv_eq hsquare hx hy a b), ?_⟩
  rw [Array.length_toList, size_scatteredBoth, List.size_toArray, length_scaleOrReset, hy]

end WellFormed

end Csc

end QpReferee

import QpReferee.Proofs.Kkt.Accepted
import QpReferee.Proofs.Problem.Blocks

/-!
# Each row in one block

The check reads the rows through lists of their kinds, products, bounds and multipliers side by side, and
such a reading ends with the shortest of them: a list of kinds that is too short would leave rows unread, and
what is not read violates nothing. But the kinds of a built problem are as many as its rows. Each row lies in
the interval of one block, between the rows in front of the block and those in front of the next, and has the
kind of that block; the interval of an empty block is empty.

* `blockOffset`, `OwnsRow` : the interval of a block.
* `existsUnique_owner`, `kind_of_owner` : each row is in one block and has its kind.
* `Kkt.ReadsRows` : the residuals of the rows are taken over all rows, each read once.
* `Problem.rows_covered` : **the kinds, the check and the cones cover the rows exactly.**
-/

namespace QpReferee

/-! ## Intervals of blocks -/

/-- The number of rows in front of block `k`. -/
def blockOffset (blocks : List Block) (k : Nat) : Nat := totalSize (blocks.take k)

/-- Row `i` lies in the interval of block `k`. -/
def OwnsRow (blocks : List Block) (k i : Nat) : Prop :=
  blockOffset blocks k ≤ i ∧ i < blockOffset blocks (k + 1)

variable {blocks : List Block} {k i : Nat}

instance : Decidable (OwnsRow blocks k i) := inferInstanceAs (Decidable (_ ∧ _))

@[simp] theorem blockOffset_cons_succ (block : Block) (blocks : List Block) (k : Nat) :
    blockOffset (block :: blocks) (k + 1) = block.size + blockOffset blocks k := rfl

theorem ownsRow_cons_zero (block : Block) (blocks : List Block) :
    OwnsRow (block :: blocks) 0 i ↔ i < block.size := by
  simp [OwnsRow, blockOffset, totalSize]

theorem ownsRow_cons_succ (block : Block) (blocks : List Block) :
    OwnsRow (block :: blocks) (k + 1) i ↔ block.size ≤ i ∧ OwnsRow blocks k (i - block.size) := by
  simp only [OwnsRow, blockOffset_cons_succ]
  omega

theorem not_ownsRow_nil : ¬OwnsRow [] k i := by
  simp [OwnsRow, blockOffset, totalSize]

/-- **Each row lies in the interval of one block.** -/
theorem existsUnique_owner (h : i < totalSize blocks) : ∃! k, OwnsRow blocks k i := by
  induction blocks generalizing i with
  | nil => cases h
  | cons block blocks ih =>
    -- behind the rows of the first block every offset is shifted by its size
    by_cases hfirst : i < block.size
    · refine ⟨0, (ownsRow_cons_zero block blocks).mpr hfirst, fun k hk => ?_⟩
      cases k with
      | zero => rfl
      | succ k =>
        have := ((ownsRow_cons_succ block blocks).mp hk).1
        omega
    · rw [totalSize] at h
      obtain ⟨k, hk, hunique⟩ := ih (i := i - block.size) (by omega)
      refine ⟨k + 1, (ownsRow_cons_succ block blocks).mpr ⟨by omega, hk⟩, fun k' hk' => ?_⟩
      cases k' with
      | zero => exact absurd ((ownsRow_cons_zero block blocks).mp hk') hfirst
      | succ k' => rw [hunique k' ((ownsRow_cons_succ block blocks).mp hk').2]

/-- **A row has the kind of the block in whose interval it lies**, and that block is not empty. -/
theorem kind_of_owner (h : OwnsRow blocks k i) :
    ∃ block, blocks[k]? = some block ∧ 0 < block.size ∧ (expandBlocks blocks)[i]? = some block.kind := by
  induction blocks generalizing k i with
  | nil => exact absurd h not_ownsRow_nil
  | cons block blocks ih =>
    rw [expandBlocks_cons]
    cases k with
    | zero =>
      have hfirst := (ownsRow_cons_zero block blocks).mp h
      refine ⟨block, rfl, by omega, ?_⟩
      rw [List.getElem?_append_left (by simpa using hfirst), List.getElem?_replicate_of_lt hfirst]
    | succ k =>
      obtain ⟨hle, hrest⟩ := (ownsRow_cons_succ block blocks).mp h
      obtain ⟨owner, howner, hsize, hkind⟩ := ih hrest
      refine ⟨owner, howner, hsize, ?_⟩
      rw [List.getElem?_append_right (by simpa using hle), List.length_replicate, hkind]

/-! ## Cones -/

namespace Conic

theorem size_pos_of_mem_cones {cone : Cone} (h : cone ∈ cones blocks) : 0 < cone.size := by
  obtain ⟨block, hblock, rfl⟩ := List.mem_map.mp h
  have hsize : 0 < block.size := of_decide_eq_true (List.mem_filter.mp hblock).2
  cases hkind : block.kind <;> exact hsize

theorem length_expandCones (cones : List Cone) :
    (expandCones cones).length = (cones.map Cone.size).sum := by
  simp [expandCones, List.length_flatMap]

end Conic

/-! ## The rows that the check reads -/

namespace Kkt

variable {T : Type} [Scalar T] {p : Problem T} {x y : List T} {w : Products T} {r : Residuals T}

/-- The residuals of the rows are taken over `rows`, which reads every row of the problem once: its kind, its
product, its bound and its multiplier, all of the same row. -/
structure ReadsRows (p : Problem T) (y : List T) (w : Products T) (r : Residuals T)
    (rows : List (RowReading T)) : Prop where
  length_eq : rows.length = p.rows
  row : ∀ i < p.rows, ∃ kind a b v, p.rowKinds[i]? = some kind ∧ w.ax[i]? = some a ∧ p.b[i]? = some b ∧
    y[i]? = some v ∧ rows[i]? = some (.of kind a b v)
  primal : r.primal = Vec.norm (rows.map (·.violation))
  dualSign : r.dualSign = Vec.norm (rows.map (·.sign))
  complementarity : r.complementarity = Vec.norm (Vec.hadamard (rows.map (·.slack)) y)

theorem readsRows_of_measured (hp : p.Shaped) (hy : y.length = p.rows) (hw : w.Fits p)
    (hr : Measured p x y w r) : ReadsRows p y w r (readRows p.rowKinds w.ax p.b y) where
  length_eq := by
    rw [length_readRows (hw.ax.trans hp.kinds.symm) hp.kinds.symm (hy.trans hp.kinds.symm), hp.kinds]
  row i hi := by
    have hkind := List.getElem?_eq_getElem (hp.kinds.symm ▸ hi : i < p.rowKinds.length)
    have hax := List.getElem?_eq_getElem (hw.ax.symm ▸ hi : i < w.ax.length)
    have hb : p.b[i]? = some p.b[i] := List.getElem?_eq_getElem hi
    have hv := List.getElem?_eq_getElem (hy.symm ▸ hi : i < y.length)
    exact ⟨_, _, _, _, hkind, hax, hb, hv, getElem?_readRows hkind hax hb hv⟩
  primal := hr.primal
  dualSign := hr.dualSign
  complementarity := hr.complementarity

end Kkt

namespace Problem

variable {T : Type} [Scalar T] {p : Problem T}

/-- **The kinds, the check and the cones cover the rows exactly.** A built problem has one kind for each row:
that of the one block in whose interval the row lies. So the check of every candidate that is admitted reads
every row once and leaves none out. The cones are those of the blocks that are not empty, and expand to the
kinds of the rows. -/
theorem rows_covered (hp : p.Built) :
    p.rowKinds.length = p.rows ∧
    (∀ i < p.rows, ∃! k, OwnsRow p.blocks k i) ∧
    (∀ k i, OwnsRow p.blocks k i → i < p.rows ∧
      ∃ block, p.blocks[k]? = some block ∧ 0 < block.size ∧ p.rowKinds[i]? = some block.kind) ∧
    (∀ c x y, Kkt.admissible p c = .ok (x, y) → ∃ w r rows, Kkt.products p x y = .ok w ∧
      (∀ tier, Kkt.check p c tier = .ok (Kkt.judge tier (Kkt.scales p.q y w) r)) ∧
      Kkt.ReadsRows p y w r rows) ∧
    (∀ cone ∈ Conic.cones p.blocks, 0 < cone.size) ∧
    Conic.expandCones (Conic.cones p.blocks) = p.rowKinds ∧
    ((Conic.cones p.blocks).map Conic.Cone.size).sum = p.rows := by
  have hkinds := hp.shaped.kinds
  have htotal : totalSize p.blocks = p.rows := by rw [← hkinds, rowKinds, length_expandBlocks]
  have hcones : Conic.expandCones (Conic.cones p.blocks) = p.rowKinds := Conic.expandCones_cones p.blocks
  refine ⟨hkinds, fun i hi => existsUnique_owner (htotal ▸ hi), fun k i h => ?owner, fun c x y hc => ?check,
    fun cone => Conic.size_pos_of_mem_cones, hcones, ?sizes⟩
  case owner =>
    obtain ⟨block, hblock, hsize, hkind⟩ := kind_of_owner h
    obtain ⟨hi, -⟩ := List.getElem?_eq_some_iff.mp hkind
    exact ⟨hkinds ▸ hi, block, hblock, hsize, hkind⟩
  case check =>
    obtain ⟨-, hx, hy⟩ := Kkt.lengths_of_admissible hc
    obtain ⟨w, hw, hfits⟩ := Kkt.exists_products hp.shaped hx hy
    obtain ⟨r, hr⟩ := Kkt.exists_measure hp.shaped hx hy hfits
    exact ⟨w, r, _, hw, Kkt.check_of_measure hc hw hr,
      Kkt.readsRows_of_measured hp.shaped hy hfits (Kkt.measured_of_measure hr)⟩
  case sizes => rw [← Conic.length_expandCones, hcones, hkinds]

theorem gapped_built : (threeRows.withBlocks fiveBlocks).Built := by
  with_unfolding_all rfl

/-- With empty blocks in front and in between, the middle row is the third block's and is read as such. -/
theorem middle_row :
    let p := threeRows.withBlocks fiveBlocks
    p.Built ∧ OwnsRow p.blocks 2 1 ∧ (∃! k, OwnsRow p.blocks k 1) ∧
    (∃ block, p.blocks[2]? = some block ∧ 0 < block.size ∧ p.rowKinds[1]? = some block.kind) ∧
    Kkt.admissible p ⟨some [1], some [0, 1, 2]⟩ = .ok ([1], [0, 1, 2]) ∧
    (∃ w r rows, Kkt.products p [1] [0, 1, 2] = .ok w ∧ Kkt.ReadsRows p [0, 1, 2] w r rows) ∧
    0 < (Conic.Cone.zero 1).size ∧ ((Conic.cones p.blocks).map Conic.Cone.size).sum = 3 := by
  intro p
  have hp : p.Built := gapped_built
  have hrows : p.rows = 3 := rfl
  have howns : OwnsRow p.blocks 2 1 := by decide
  have hadmissible : Kkt.admissible p ⟨some [1], some [0, 1, 2]⟩ = .ok ([1], [0, 1, 2]) :=
    Kkt.admissible_eq_ok.mpr ⟨rfl, rfl, rfl, by decide +kernel, by decide +kernel⟩
  obtain ⟨-, hunique, howner, hcheck, hpositive, -, hsizes⟩ := rows_covered hp
  obtain ⟨w, r, rows, hw, -, hreads⟩ := hcheck _ _ _ hadmissible
  exact ⟨hp, howns, hunique 1 (by rw [hrows]; decide), (howner 2 1 howns).2, hadmissible, ⟨w, r, rows, hw, hreads⟩,
    hpositive _ (by decide), hsizes⟩

end Problem

end QpReferee

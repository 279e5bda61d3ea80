import QpReferee.Proofs.Problem.Construction

/-!
# Problems that were built

A problem that `Problem.make` returned has passed ten conditions. What they establish is collected once;
every later statement about a built problem starts from it.

* `Problem.Built` : the problem came out of `Problem.make`.
* `Problem.Shaped`, `Problem.Built.shaped` : its matrices are in format and of the right sizes, the
  hessian is upper triangular, each row has a kind, and all values are finite.
-/

namespace QpReferee

@[simp] theorem expandBlocks_cons (block : Block) (blocks : List Block) :
    expandBlocks (block :: blocks) = List.replicate block.size block.kind ++ expandBlocks blocks := by
  simp [expandBlocks]

theorem length_expandBlocks (blocks : List Block) : (expandBlocks blocks).length = totalSize blocks := by
  induction blocks with
  | nil => rfl
  | cons block blocks ih => simp [totalSize, ih]

namespace Problem

variable {T : Type} [Scalar T]

/-- The problem came out of `Problem.make`. -/
def Built (p : Problem T) : Prop := make p.P p.q p.A p.b p.blocks = .ok (.ok p)

/-- What the conditions on the data of a problem establish. -/
structure Shaped (p : Problem T) : Prop where
  hessian : p.P.WellFormed
  hessian_rows : p.P.rows = p.unknowns
  hessian_cols : p.P.cols = p.unknowns
  hessian_upper : p.P.isUpper = .ok true
  constraints : p.A.WellFormed
  constraints_rows : p.A.rows = p.rows
  constraints_cols : p.A.cols = p.unknowns
  /-- Each row has a kind. -/
  kinds : p.rowKinds.length = p.rows
  hessian_finite : p.P.hasFiniteValues = true
  linear_finite : Vec.isFinite p.q = true
  constraints_finite : p.A.hasFiniteValues = true
  bound_finite : Vec.isFinite p.b = true

theorem Built.shaped {p : Problem T} (h : p.Built) : p.Shaped := by
  have hflow : ¬p.Overflows := by
    intro hflow
    rw [Built, make_eq, firstError_of_overflows hflow] at h
    cases h
  obtain ⟨hall, -⟩ := (concludes_make hflow).eq_ok_iff.mp h
  simp only [Problem.conditions, List.forall_mem_append, holds_rename, ← Csc.wellFormed_iff,
    joinConditions, List.forall_mem_cons] at hall
  obtain ⟨hessian, constraints, hessian_size, constraints_size, upper, covered, hP, hq, hA, hb, -⟩ := hall
  exact {
    hessian
    hessian_rows := hessian_size.1
    hessian_cols := hessian_size.2
    hessian_upper := hessian.ranged.isUpper_iff.mpr upper
    constraints
    constraints_rows := constraints_size.1
    constraints_cols := constraints_size.2
    kinds := (length_expandBlocks p.blocks).trans covered
    hessian_finite := Array.all_eq_true'.mpr hP
    linear_finite := List.all_eq_true.mpr hq
    constraints_finite := Array.all_eq_true'.mpr hA
    bound_finite := List.all_eq_true.mpr hb }

end Problem

end QpReferee

import QpReferee.Problem
import QpReferee.Proofs.Sparse.Faults

/-!
# What the construction of a problem answers

Construction asks ten conditions of the data, in an order in which each makes the next safe to ask. Two
sizes are computed on the way, the number of pointers of a matrix and the number of rows of all blocks;
where one of them is no size the construction stops, and nothing else stops it.

* `Problem.Overflows` : the data for which the construction stops.
* `Problem.concludes_firstError` : on all other data it answers with the first condition that is broken.
* `Problem.make_outcome` : **when the construction stops, and that it answers otherwise.**
* `Problem.make_verdict` : **exactly the data that satisfy every condition are accepted, as they are given.**
-/

namespace QpReferee

/-- The sum of the sizes of some blocks, in or out of range. -/
def totalSize : List Block → Nat
  | [] => 0
  | block :: blocks => block.size + totalSize blocks

/-- The counted rows are the sum of the sizes, unless that is no size. -/
theorem coveredRows_eq (blocks : List Block) :
    coveredRows blocks =
      if totalSize blocks < wordRange then .ok (totalSize blocks) else .error .overflow := by
  -- sums only grow, so a partial sum out of range puts the whole one out of range
  have hfrom : ∀ (blocks : List Block) (total : Nat), total < wordRange →
      blocks.foldlM (fun total block => checkedAdd total block.size) total =
        if total + totalSize blocks < wordRange then .ok (total + totalSize blocks)
          else .error .overflow := by
    intro blocks
    induction blocks with
    | nil =>
      intro total htotal
      rw [totalSize, Nat.add_zero, if_pos htotal]
      rfl
    | cons block blocks ih =>
      intro total htotal
      rw [List.foldlM_cons, totalSize, ← Nat.add_assoc]
      by_cases hnext : total + block.size < wordRange
      · rw [checkedAdd, if_pos hnext, Checked.ok_bind, ih _ hnext]
      · rw [checkedAdd, if_neg hnext, if_neg (by omega)]
        rfl
  have hall := hfrom blocks 0 (by decide)
  rwa [Nat.zero_add] at hall

namespace Problem

variable {T : Type} [Scalar T]

/-- A size that the construction computes before it finds a broken condition is out of range. -/
def Overflows (p : Problem T) : Prop :=
  p.P.TooWide ∨ (p.P.WellFormed ∧ p.A.TooWide) ∨
    (p.P.WellFormed ∧ p.A.WellFormed ∧ (p.P.rows = p.unknowns ∧ p.P.cols = p.unknowns) ∧
      (p.A.rows = p.rows ∧ p.A.cols = p.unknowns) ∧ p.P.isUpper = .ok true ∧
        wordRange ≤ totalSize p.blocks)

/-- The conditions that join the parts of the data, in order, said of the data alone. -/
def joinConditions (p : Problem T) : List (Condition ProblemError) :=
  [⟨p.P.rows = p.unknowns ∧ p.P.cols = p.unknowns, .incompatibleDimension .P⟩,
    ⟨p.A.rows = p.rows ∧ p.A.cols = p.unknowns, .incompatibleDimension .A⟩,
    ⟨p.P.Upper, .notUpperTriangular⟩,
    ⟨totalSize p.blocks = p.rows, .badConstraintBlocks (totalSize p.blocks) p.rows⟩,
    ⟨∀ v ∈ p.P.values, Scalar.isFinite v = true, .nonFinite .P⟩,
    ⟨∀ v ∈ p.q, Scalar.isFinite v = true, .nonFinite .q⟩,
    ⟨∀ v ∈ p.A.values, Scalar.isFinite v = true, .nonFinite .A⟩,
    ⟨∀ v ∈ p.b, Scalar.isFinite v = true, .nonFinite .b⟩]

/-- The conditions of the construction, in order. -/
def conditions (p : Problem T) : List (Condition ProblemError) :=
  p.P.formatConditions.map (Condition.rename .badFormat) ++
    (p.A.formatConditions.map (Condition.rename .badFormat) ++ p.joinConditions)

theorem firstError_of_overflows {p : Problem T} (h : p.Overflows) : p.firstError = .error .overflow := by
  unfold firstError
  -- the three sizes, in the order in which they are computed
  rcases h with hP | ⟨hP, hA⟩ | ⟨hP, hA, hdimP, hdimA, hupper, hsum⟩
  · rw [Csc.checkFormat_of_tooWide hP]
    rfl
  · apply Checked.bind_stops hP.checkFormat_cases
    rw [Csc.checkFormat_of_tooWide hA]
    rfl
  · apply Checked.bind_stops hP.checkFormat_cases
    apply Checked.bind_stops hA.checkFormat_cases
    dsimp only
    rw [if_neg (by omega), if_neg (by omega), hupper, Checked.ok_bind, if_pos rfl, coveredRows_eq,
      if_neg (by omega)]
    rfl

/-- **The construction answers with the first condition that is broken.** -/
theorem concludes_firstError {p : Problem T} (h : ¬p.Overflows) : Concludes p.firstError p.conditions () := by
  unfold firstError conditions
  have hwideP : ¬p.P.TooWide := fun hwide => h (.inl hwide)
  refine .bind (Csc.concludes_checkFormat hwideP) (fun _ => rfl) fun hformatP => ?_
  have hP := Csc.wellFormed_iff.mpr hformatP
  have hwideA : ¬p.A.TooWide := fun hwide => h (.inr (.inl ⟨hP, hwide⟩))
  refine .bind (Csc.concludes_checkFormat hwideA) (fun _ => rfl) fun hformatA => ?_
  have hA := Csc.wellFormed_iff.mpr hformatA
  -- both formats are right; the rest judges how the parts of the data fit
  unfold joinConditions
  refine .avoid (by omega) fun hdimP => ?_
  refine .avoid (by omega) fun hdimA => ?_
  obtain ⟨upper, hupper⟩ := hP.ranged.exists_isUpper
  rw [hupper, Checked.ok_bind]
  refine .guard (by rw [← hP.ranged.isUpper_iff, hupper, Except.ok.injEq]) fun htriangle => ?_
  have hsum : totalSize p.blocks < wordRange := by
    by_contra hsum
    exact h (.inr (.inr ⟨hP, hA, hdimP, hdimA, hP.ranged.isUpper_iff.mpr htriangle, not_lt.mp hsum⟩))
  rw [coveredRows_eq, if_pos hsum, Checked.ok_bind]
  refine .avoid Iff.rfl fun _ => ?_
  refine .guard Array.all_eq_true' fun _ => ?_
  refine .guard List.all_eq_true fun _ => ?_
  refine .guard Array.all_eq_true' fun _ => ?_
  exact .guard List.all_eq_true fun _ => concludes_done

/-- **When the construction stops, and that it answers otherwise.** -/
theorem make_outcome (P : Csc T) (q : List T) (A : Csc T) (b : List T) (blocks : List Block) :
    (Overflows ⟨P, q, A, b, blocks⟩ ∧ make P q A b blocks = .error .overflow) ∨
      (¬Overflows ⟨P, q, A, b, blocks⟩ ∧ (make P q A b blocks = .ok (.ok ⟨P, q, A, b, blocks⟩) ∨
        ∃ e, make P q A b blocks = .ok (.error e))) := by
  unfold make
  dsimp only
  by_cases h : Overflows ⟨P, q, A, b, blocks⟩
  · refine .inl ⟨h, ?_⟩
    rw [firstError_of_overflows h]
    rfl
  · refine .inr ⟨h, ?_⟩
    obtain ⟨verdict, hverdict, -⟩ := concludes_firstError h
    rw [hverdict, Checked.ok_bind]
    cases verdict with
    | error e => exact .inr ⟨e, rfl⟩
    | ok u => exact .inl rfl

/-- A matrix without rows and entries, of as many columns as there can be. -/
def widest : Csc Float := ⟨0, wordRange - 1, #[], #[], #[]⟩

/-- The matrix without rows and columns. -/
def empty : Csc Float := ⟨0, 0, #[0], #[], #[]⟩

/-- A matrix whose arrays do not fit its width stops the construction in either place, and so do two blocks
that cover too many rows. -/
theorem construction_stops :
    (make widest [] empty [] [] = .error .overflow ∧ make empty [] widest [] [] = .error .overflow) ∧
      make empty [] empty [] [⟨.equality, wordRange - 1⟩, ⟨.inequality, 1⟩] = .error .overflow := by
  refine ⟨⟨?_, ?_⟩, ?_⟩ <;> with_unfolding_all rfl

/-! ## Acceptance and refusal -/

theorem make_eq (p : Problem T) :
    make p.P p.q p.A p.b p.blocks = p.firstError.map (Except.map fun _ => p) := by
  unfold make
  cases h : p.firstError with
  | error fault => simp [h, bind, Except.bind, Except.map]
  | ok verdict => simp [h, pure, Except.pure, Except.map]

theorem concludes_make {p : Problem T} (h : ¬p.Overflows) :
    Concludes (make p.P p.q p.A p.b p.blocks) p.conditions p := by
  rw [make_eq]
  exact (concludes_firstError h).map fun _ => p

omit [Scalar T] in
theorem not_overflows {p : Problem T} (hP : p.P.cols + 1 < wordRange) (hA : p.A.cols + 1 < wordRange)
    (hsum : totalSize p.blocks < wordRange) : ¬p.Overflows := by
  rintro (h | ⟨-, h⟩ | ⟨-, -, -, -, -, h⟩)
  · exact Csc.not_tooWide hP h
  · exact Csc.not_tooWide hA h
  · omega

/-- **Exactly the data that satisfy every condition are accepted, as they are given; all others are
refused for the first condition that they break.** -/
theorem make_verdict (P : Csc T) (q : List T) (A : Csc T) (b : List T) (blocks : List Block)
    (hP : P.cols + 1 < wordRange) (hA : A.cols + 1 < wordRange) (hsum : totalSize blocks < wordRange) :
    ∃ outcome, make P q A b blocks = .ok outcome ∧
      (∀ p, outcome = .ok p ↔ (P.checkFormat = .ok (.ok ()) ∧ A.checkFormat = .ok (.ok ()) ∧
        ∀ c ∈ joinConditions ⟨P, q, A, b, blocks⟩, c.holds) ∧ p = ⟨P, q, A, b, blocks⟩) ∧
      ∀ e, outcome = .error e ↔
        (∃ f, P.checkFormat = .ok (.error f) ∧ .badFormat f = e) ∨ P.checkFormat = .ok (.ok ()) ∧
          ((∃ f, A.checkFormat = .ok (.error f) ∧ .badFormat f = e) ∨ A.checkFormat = .ok (.ok ()) ∧
            FirstBroken (joinConditions ⟨P, q, A, b, blocks⟩) e) := by
  obtain ⟨outcome, hmake, hjudges⟩ :=
    concludes_make (p := ⟨P, q, A, b, blocks⟩) (not_overflows hP hA hsum)
  have hP := Csc.concludes_checkFormat (Csc.not_tooWide hP)
  have hA := Csc.concludes_checkFormat (Csc.not_tooWide hA)
  refine ⟨outcome, hmake, fun p => ?_, fun e => ?_⟩
  · rw [hjudges.eq_ok_iff, hP.eq_ok_iff, hA.eq_ok_iff, conditions,
      List.forall_mem_append, List.forall_mem_append, holds_rename, holds_rename]
    simp
  · rw [hjudges.eq_error_iff, conditions, firstBroken_append, firstBroken_append,
      firstBroken_rename, firstBroken_rename, holds_rename, holds_rename]
    simp [hP.eq_ok_iff, hP.eq_error_iff, hA.eq_ok_iff, hA.eq_error_iff]

/-- One row under two blocks that cover three, and a value that is no number. -/
def overcovered : Problem Float where
  P := ⟨1, 1, #[0, 1], #[0], #[2]⟩
  q := [0]
  A := ⟨1, 1, #[0, 1], #[0], #[0 / 0]⟩
  b := [1]
  blocks := [⟨.equality, 1⟩, ⟨.inequality, 2⟩]

/-- Of two faults the first is answered, with what the blocks cover and what they should. -/
theorem overcovered_refused :
    (overcovered.P.cols + 1 < wordRange ∧ overcovered.A.cols + 1 < wordRange ∧
      totalSize overcovered.blocks < wordRange) ∧
    make overcovered.P overcovered.q overcovered.A overcovered.b overcovered.blocks =
      .ok (.error (.badConstraintBlocks 3 1)) := by
  have hsizes : overcovered.P.cols + 1 < wordRange ∧ overcovered.A.cols + 1 < wordRange ∧
      totalSize overcovered.blocks < wordRange := by decide
  have hP : overcovered.P.checkFormat = .ok (.ok ()) := by with_unfolding_all rfl
  have hA : overcovered.A.checkFormat = .ok (.ok ()) := by with_unfolding_all rfl
  have hupper : overcovered.P.Upper :=
    (Csc.wellFormed_of_checkFormat hP).ranged.isUpper_iff.mp (by with_unfolding_all rfl)
  have hfirst : FirstBroken overcovered.joinConditions (.badConstraintBlocks 3 1) := by
    unfold joinConditions
    simp only [firstBroken_cons]
    exact .inr ⟨⟨rfl, rfl⟩, .inr ⟨⟨rfl, rfl⟩, .inr ⟨hupper, .inl ⟨by decide, rfl⟩⟩⟩⟩
  obtain ⟨outcome, hmake, -, herror⟩ := make_verdict overcovered.P overcovered.q overcovered.A
    overcovered.b overcovered.blocks hsizes.1 hsizes.2.1 hsizes.2.2
  rw [(herror _).mpr (.inr ⟨hP, .inr ⟨hA, hfirst⟩⟩)] at hmake
  exact ⟨hsizes, hmake⟩

end Problem

end QpReferee

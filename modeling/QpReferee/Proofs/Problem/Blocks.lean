import QpReferee.Engine.Conic
import QpReferee.Kkt.Check
import QpReferee.Proofs.Problem.Built

/-!
# Blocks of rows

A problem gets its rows in blocks, but asks only for the kinds of its rows. Blocks that expand to the same
kinds are regroupings of each other: one leads to the other by cutting and joining blocks of one kind and by
adding and dropping empty ones. Whatever is done with a problem comes out the same for each of them.

* `Regrouped`, `regrouped_iff` : **blocks are regroupings of each other exactly if they have the same rows.**
* `Problem.withBlocks` : a problem in other blocks; its construction, its objective and its check.
* `Conic.expandCones`, `Conic.expandCones_cones` : the cones of some blocks have the rows of the blocks.
* `Problem.grouping_irrelevant` : **two groupings of the same rows make the same problem.**
-/

namespace QpReferee

/-- Cutting and joining blocks of one kind, adding and dropping empty ones. -/
inductive Regrouped : List Block → List Block → Prop
  | refl (l : List Block) : Regrouped l l
  | cons (block : Block) {l l' : List Block} : Regrouped l l' → Regrouped (block :: l) (block :: l')
  | cut (kind : RowKind) (m n : Nat) (l : List Block) :
    Regrouped (⟨kind, m + n⟩ :: l) (⟨kind, m⟩ :: ⟨kind, n⟩ :: l)
  | drop (kind : RowKind) (l : List Block) : Regrouped (⟨kind, 0⟩ :: l) l
  | symm {l l' : List Block} : Regrouped l l' → Regrouped l' l
  | trans {l l' l'' : List Block} : Regrouped l l' → Regrouped l' l'' → Regrouped l l''

theorem Regrouped.expandBlocks_eq {l l' : List Block} (h : Regrouped l l') :
    expandBlocks l = expandBlocks l' := by
  induction h with
  | refl l => rfl
  | cons block _ ih => simp [ih]
  | cut kind m n l =>
    rw [expandBlocks_cons, List.replicate_add, List.append_assoc]
    simp
  | drop kind l => simp
  | symm _ ih => exact ih.symm
  | trans _ _ ih ih' => exact ih.trans ih'

def singleBlocks (kinds : List RowKind) : List Block := kinds.map fun kind => ⟨kind, 1⟩

theorem regrouped_cut_all (kind : RowKind) (n : Nat) (l : List Block) :
    Regrouped (⟨kind, n⟩ :: l) (singleBlocks (List.replicate n kind) ++ l) := by
  induction n with
  | zero => exact .drop kind l
  | succ n ih =>
    -- one row is cut off in front of the others
    rw [Nat.add_comm n 1]
    apply Regrouped.trans (.cut kind 1 n l)
    rw [Nat.add_comm 1 n]
    exact .cons ⟨kind, 1⟩ ih

theorem regrouped_singleBlocks (l : List Block) : Regrouped l (singleBlocks (expandBlocks l)) := by
  induction l with
  | nil => exact .refl []
  | cons block l ih =>
    rw [expandBlocks_cons, singleBlocks, List.map_append]
    exact .trans (.cons block ih) (regrouped_cut_all block.kind block.size _)

/-- **Blocks are regroupings of each other exactly if they have the same rows**: both can be cut down to
single rows. -/
theorem regrouped_iff {l l' : List Block} : Regrouped l l' ↔ expandBlocks l = expandBlocks l' := by
  constructor
  · exact Regrouped.expandBlocks_eq
  · intro h
    apply Regrouped.trans (regrouped_singleBlocks l)
    rw [h]
    exact (regrouped_singleBlocks l').symm

/-! ## Cones -/

namespace Conic

/-- What the rows of a cone demand of their slacks. -/
def Cone.kind : Cone → RowKind
  | .zero _ => .equality
  | .nonnegative _ => .inequality

def Cone.size : Cone → Nat
  | .zero size => size
  | .nonnegative size => size

/-- The kinds of the rows of some cones, in row order. -/
def expandCones (cones : List Cone) : List RowKind :=
  cones.flatMap fun cone => List.replicate cone.size cone.kind

theorem expandCones_cones (blocks : List Block) : expandCones (cones blocks) = expandBlocks blocks := by
  induction blocks with
  | nil => rfl
  | cons block blocks ih =>
    obtain ⟨kind, size⟩ := block
    rw [expandBlocks_cons, ← ih]
    unfold cones expandCones
    by_cases hsize : 0 < size
    · cases kind <;> simp [hsize, Cone.kind, Cone.size]
    · simp [Nat.eq_zero_of_not_pos hsize]

end Conic

/-! ## A problem in other blocks -/

namespace Problem

variable {T : Type} {p : Problem T} {blocks : List Block}

/-- The problem with its rows in other blocks. -/
def withBlocks (p : Problem T) (blocks : List Block) : Problem T := { p with blocks }

variable [Scalar T]

theorem firstError_withBlocks (h : expandBlocks blocks = p.rowKinds) :
    (p.withBlocks blocks).firstError = p.firstError := by
  -- the construction reads the blocks only to count their rows
  have hsize : totalSize blocks = totalSize p.blocks := by
    rw [← length_expandBlocks, h, rowKinds, length_expandBlocks]
  have hcovered : coveredRows (p.withBlocks blocks).blocks = coveredRows p.blocks := by
    rw [coveredRows_eq p.blocks, ← hsize, ← coveredRows_eq]
    rfl
  unfold firstError
  rw [hcovered]
  rfl

theorem measure_withBlocks (h : expandBlocks blocks = p.rowKinds) (x y : List T) (w : Kkt.Products T) :
    Kkt.measure (p.withBlocks blocks) x y w = Kkt.measure p x y w := by
  unfold Kkt.measure
  rw [show (p.withBlocks blocks).rowKinds = p.rowKinds from h]
  rfl

theorem check_withBlocks (h : expandBlocks blocks = p.rowKinds) (c : Candidate T) (tier : Tier) :
    Kkt.check (p.withBlocks blocks) c tier = Kkt.check p c tier := by
  unfold Kkt.check
  simp only [measure_withBlocks h]
  rfl

/-- **Two groupings of the same rows make the same problem**: both are refused for the same reason, or both
are accepted, and then the kinds and the number of the rows, the objective, the verdict of the check with all
its numbers and the rows of the cones are the same. -/
theorem grouping_irrelevant (P : Csc T) (q : List T) (A : Csc T) (b : List T) {blocks blocks' : List Block}
    (hrows : expandBlocks blocks = expandBlocks blocks') (hP : P.cols + 1 < wordRange)
    (hA : A.cols + 1 < wordRange) (hsum : totalSize blocks < wordRange) :
    (∃ e, make P q A b blocks = .ok (.error e) ∧ make P q A b blocks' = .ok (.error e)) ∨
      ∃ p p', make P q A b blocks = .ok (.ok p) ∧ make P q A b blocks' = .ok (.ok p') ∧
        p.rowKinds = p'.rowKinds ∧ p.rows = p'.rows ∧ (∀ x, p.objective x = p'.objective x) ∧
        (∀ c tier, Kkt.check p c tier = Kkt.check p' c tier) ∧
        Conic.expandCones (Conic.cones p.blocks) = Conic.expandCones (Conic.cones p'.blocks) := by
  have hkinds : expandBlocks blocks' = rowKinds ⟨P, q, A, b, blocks⟩ := hrows.symm
  obtain ⟨outcome, hfirst, -⟩ :=
    concludes_firstError (p := ⟨P, q, A, b, blocks⟩) (not_overflows hP hA hsum)
  have hmake := make_eq ⟨P, q, A, b, blocks⟩
  have hmake' := make_eq (withBlocks ⟨P, q, A, b, blocks⟩ blocks')
  rw [firstError_withBlocks hkinds] at hmake'
  rw [hfirst] at hmake hmake'
  cases outcome with
  | error e => exact .inl ⟨e, hmake, hmake'⟩
  | ok u =>
    refine .inr ⟨_, _, hmake, hmake', hkinds.symm, rfl, fun x => rfl, fun c tier => ?_, ?_⟩
    · exact (check_withBlocks hkinds c tier).symm
    · rw [Conic.expandCones_cones, Conic.expandCones_cones]
      exact hrows

/-- One equality and two inequalities in two blocks. -/
def twoBlocks : List Block := [⟨.equality, 1⟩, ⟨.inequality, 2⟩]

/-- The same rows, with a block cut in two and empty blocks in front and in between. -/
def fiveBlocks : List Block :=
  [⟨.inequality, 0⟩, ⟨.equality, 1⟩, ⟨.inequality, 1⟩, ⟨.equality, 0⟩, ⟨.inequality, 1⟩]

def threeRows : Problem Float where
  P := ⟨1, 1, #[0, 1], #[0], #[2]⟩
  q := [0]
  A := ⟨3, 1, #[0, 2], #[0, 2], #[1, -1]⟩
  b := [1, 0, 0]
  blocks := twoBlocks

theorem threeRows_built : threeRows.Built := by
  with_unfolding_all rfl

/-- In both groupings the problem is accepted, and every candidate gets the same verdict. -/
theorem threeRows_regrouped :
    (expandBlocks twoBlocks = expandBlocks fiveBlocks ∧ threeRows.P.cols + 1 < wordRange ∧
      threeRows.A.cols + 1 < wordRange ∧ totalSize twoBlocks < wordRange) ∧
    ∃ p p', make threeRows.P threeRows.q threeRows.A threeRows.b twoBlocks = .ok (.ok p) ∧
      make threeRows.P threeRows.q threeRows.A threeRows.b fiveBlocks = .ok (.ok p') ∧
      ∀ c tier, Kkt.check p c tier = Kkt.check p' c tier := by
  obtain ⟨hrows, hP, hA, hsum⟩ : expandBlocks twoBlocks = expandBlocks fiveBlocks ∧
      threeRows.P.cols + 1 < wordRange ∧ threeRows.A.cols + 1 < wordRange ∧
      totalSize twoBlocks < wordRange := by decide
  rcases grouping_irrelevant threeRows.P threeRows.q threeRows.A threeRows.b hrows hP hA hsum with
    ⟨e, hmake, -⟩ | ⟨p, p', hmake, hmake', -, -, -, hcheck, -⟩
  · cases threeRows_built.symm.trans hmake
  · exact ⟨⟨hrows, hP, hA, hsum⟩, p, p', hmake, hmake', hcheck⟩

end Problem

end QpReferee

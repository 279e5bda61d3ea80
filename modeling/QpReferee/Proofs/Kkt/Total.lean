import QpReferee.Kkt.Check
import QpReferee.Proofs.Problem.Built
import QpReferee.Proofs.Sparse.Product

/-!
# The check gives a verdict

On a problem that was built the kernels never stop the check, whatever the scalars, the candidate and
the tier are: a candidate of the wrong lengths is refused before any product, and one of the right
lengths fits every product.

* `Kkt.exists_products`, `Kkt.exists_measure` : the products and the residuals of an admissible candidate.
* `Kkt.refused_or_judged` : what the check comes to, at every tier.
* `Kkt.exists_check` : **the check gives a verdict on every candidate.**
* `Problem.objective_stops_iff` : the objective stops only at a point of another length.
* `Kkt.total` : **malformed candidates stop nothing but the objective.**
-/

namespace QpReferee

variable {T : Type} [Scalar T]

theorem Vec.exists_dot {x y : List T} (h : x.length = y.length) : ∃ d, Vec.dot x y = .ok d := by
  unfold Vec.dot
  rw [demand_of h, Checked.ok_bind]
  exact ⟨_, rfl⟩

theorem Vec.exists_combine {x y : List T} (h : y.length = x.length) (a b : T) :
    ∃ z, Vec.combine a x b y = .ok z ∧ z.length = x.length := by
  unfold Vec.combine
  rw [demand_of h, Checked.ok_bind]
  refine ⟨_, rfl, ?_⟩
  rw [List.length_zipWith, h, Nat.min_self]

theorem Vec.exists_hadamardNorm {x y : List T} (h : x.length = y.length) :
    ∃ d, Vec.hadamardNorm x y = .ok d := by
  unfold Vec.hadamardNorm
  rw [demand_of h, Checked.ok_bind]
  exact ⟨_, rfl⟩

namespace Problem

variable {p : Problem T} {x : List T}

theorem exists_curvature (hp : p.Shaped) (hx : x.length = p.unknowns) :
    ∃ z, p.curvature x = .ok z ∧ z.length = p.unknowns := by
  obtain ⟨z, hz, hlength⟩ := hp.hessian.exists_upperSymv (x := x) (y := zeroVector p.unknowns)
    (by rw [hp.hessian_rows, hp.hessian_cols]) hp.hessian_upper (by rw [hx, hp.hessian_cols])
    (by rw [zeroVector, List.length_replicate, hp.hessian_cols]) 1 0
  exact ⟨z, hz, hlength.trans hp.hessian_cols⟩

theorem curvature_stops (hp : p.Shaped) (hx : x.length ≠ p.unknowns) :
    p.curvature x = .error .length := by
  rw [← hp.hessian_cols] at hx
  unfold curvature
  rw [Csc.upperSymv_eq_symv hp.hessian_upper, Csc.symv,
    demand_of (hp.hessian_rows.trans hp.hessian_cols.symm), Checked.ok_bind, demand_of_not hx]
  rfl

theorem exists_objective (hp : p.Shaped) (hx : x.length = p.unknowns) :
    ∃ value, p.objective x = .ok value := by
  obtain ⟨z, hz, hlength⟩ := exists_curvature hp hx
  obtain ⟨curved, hcurved⟩ := Vec.exists_dot (hx.trans hlength.symm)
  obtain ⟨linear, hlinear⟩ := Vec.exists_dot (x := p.q) hx.symm
  unfold objective
  rw [hz, Checked.ok_bind, hcurved, Checked.ok_bind, hlinear]
  exact ⟨_, rfl⟩

theorem objective_stops_iff (hp : p.Shaped) :
    (∃ fault, p.objective x = .error fault) ↔ x.length ≠ p.unknowns := by
  constructor
  · rintro ⟨fault, hfault⟩ hx
    obtain ⟨value, hvalue⟩ := exists_objective hp hx
    cases hfault.symm.trans hvalue
  · intro hx
    unfold objective
    rw [curvature_stops hp hx]
    exact ⟨_, rfl⟩

end Problem

namespace Kkt

variable {p : Problem T} {x y : List T}

/-- Products whose vectors have the lengths that a problem asks for. -/
structure Products.Fits (w : Products T) (p : Problem T) : Prop where
  ax : w.ax.length = p.rows
  px : w.px.length = p.unknowns
  aty : w.aty.length = p.unknowns

theorem exists_products (hp : p.Shaped) (hx : x.length = p.unknowns) (hy : y.length = p.rows) :
    ∃ w, products p x y = .ok w ∧ w.Fits p := by
  obtain ⟨ax, hax, hlenAx⟩ := hp.constraints.exists_gemv (x := x) (y := Problem.zeroVector p.rows)
    (by rw [hx, hp.constraints_cols])
    (by rw [Problem.zeroVector, List.length_replicate, hp.constraints_rows]) 1 0
  obtain ⟨px, hpx, hlenPx⟩ := Problem.exists_curvature hp hx
  obtain ⟨aty, haty, hlenAty⟩ := hp.constraints.exists_gemvT (x := y)
    (y := Problem.zeroVector p.unknowns) (by rw [hy, hp.constraints_rows])
    (by rw [Problem.zeroVector, List.length_replicate, hp.constraints_cols]) 1 0
  refine ⟨⟨ax, px, aty⟩, ?_, ⟨?_, hlenPx, ?_⟩⟩
  · rw [products, hax, hpx, haty]
    rfl
  · exact hlenAx.trans hp.constraints_rows
  · exact hlenAty.trans hp.constraints_cols

theorem length_readRows {kinds : List RowKind} {ax b y : List T} (hax : ax.length = kinds.length)
    (hb : b.length = kinds.length) (hy : y.length = kinds.length) :
    (readRows kinds ax b y).length = kinds.length := by
  simp [readRows, hax, hb, hy]

theorem getElem?_readRows {kinds : List RowKind} {ax b y : List T} {i : ℕ} {kind : RowKind} {a c v : T}
    (hkind : kinds[i]? = some kind) (ha : ax[i]? = some a) (hc : b[i]? = some c) (hv : y[i]? = some v) :
    (readRows kinds ax b y)[i]? = some (.of kind a c v) := by
  have hentries : (kinds.zip (ax.zip (b.zip y)))[i]? = some (kind, a, c, v) := by
    simp only [List.getElem?_zip_eq_some, and_true, hkind, ha, hc, hv]
  rw [readRows, List.getElem?_map, hentries]
  rfl

theorem exists_gradient {w : Products T} (hw : w.Fits p) : ∃ g, gradient p.q w = .ok g := by
  obtain ⟨half, hhalf, hlength⟩ := Vec.exists_combine (x := p.q) (y := w.px) hw.px 1 1
  obtain ⟨g, hg, -⟩ := Vec.exists_combine (x := w.aty) (y := half) (by rw [hlength, hw.aty]; rfl) 1 1
  exact ⟨g, by rw [gradient, hhalf, Checked.ok_bind, hg]⟩

theorem exists_measure (hp : p.Shaped) (hx : x.length = p.unknowns) (hy : y.length = p.rows)
    {w : Products T} (hw : w.Fits p) : ∃ r, measure p x y w = .ok r := by
  have hrows : ((readRows p.rowKinds w.ax p.b y).map (·.slack)).length = y.length := by
    rw [List.length_map, length_readRows (hw.ax.trans hp.kinds.symm) hp.kinds.symm
      (hy.trans hp.kinds.symm), hp.kinds, hy]
  obtain ⟨g, hg⟩ := exists_gradient hw
  obtain ⟨complementarity, hcomp⟩ := Vec.exists_hadamardNorm hrows
  obtain ⟨half, hhalf⟩ := Vec.exists_dot (x := x) (y := w.px) (hx.trans hw.px.symm)
  obtain ⟨linear, hlinear⟩ := Vec.exists_dot (x := p.q) (y := x) hx.symm
  obtain ⟨bound, hbound⟩ := Vec.exists_dot (x := p.b) (y := y) hy.symm
  unfold measure
  dsimp only
  rw [hg, hcomp, hhalf, hlinear, hbound]
  exact ⟨_, rfl⟩

theorem lengths_of_admissible {c : Candidate T} (h : admissible p c = .ok (x, y)) :
    c = ⟨some x, some y⟩ ∧ x.length = p.unknowns ∧ y.length = p.rows := by
  obtain ⟨cx, cy⟩ := c
  unfold admissible at h
  cases cx with
  | none => cases h
  | some cx =>
    cases cy with
    | none => cases h
    | some cy =>
      dsimp only at h
      split_ifs at h with hx hy
      cases h
      exact ⟨rfl, not_not.mp hx, not_not.mp hy⟩

theorem check_of_refused {c : Candidate T} {failure : Failure T} (h : admissible p c = .error failure)
    (tier : Tier) : check p c tier = .ok (.error failure) := by
  unfold check
  rw [h]
  rfl

theorem check_of_measure {c : Candidate T} {w : Products T} {r : Residuals T}
    (h : admissible p c = .ok (x, y)) (hw : products p x y = .ok w) (hr : measure p x y w = .ok r)
    (tier : Tier) : check p c tier = .ok (judge tier (scales p.q y w) r) := by
  unfold check
  rw [h]
  dsimp only
  rw [hw, Checked.ok_bind, hr]
  rfl

/-- On a built problem a candidate is refused before anything is computed, or its residuals are compared;
whatever the tier. -/
theorem refused_or_judged (hp : p.Built) (c : Candidate T) :
    (∃ failure, ∀ tier, check p c tier = .ok (.error failure)) ∨
      ∃ y w r, ∀ tier, check p c tier = .ok (judge tier (scales p.q y w) r) := by
  cases hc : admissible p c with
  | error failure => exact .inl ⟨failure, check_of_refused hc⟩
  | ok xy =>
    obtain ⟨x, y⟩ := xy
    obtain ⟨-, hx, hy⟩ := lengths_of_admissible hc
    obtain ⟨w, hw, hfits⟩ := exists_products hp.shaped hx hy
    obtain ⟨r, hr⟩ := exists_measure hp.shaped hx hy hfits
    exact .inr ⟨y, w, r, check_of_measure hc hw hr⟩

/-- **The check gives a verdict on every candidate.** -/
theorem exists_check (hp : p.Built) (c : Candidate T) (tier : Tier) :
    ∃ outcome, check p c tier = .ok outcome := by
  rcases refused_or_judged hp c with ⟨failure, hrefused⟩ | ⟨y, w, r, hjudged⟩
  · exact ⟨_, hrefused tier⟩
  · exact ⟨_, hjudged tier⟩

/-- **Malformed candidates stop nothing but the objective.** On a built problem both forms of the check
answer on every candidate, and the objective stops exactly at the points of another length. -/
theorem total (hp : p.Built) (c : Candidate T) (tier : Tier) (x : List T) :
    (∃ outcome, check p c tier = .ok outcome ∧ isOptimal p c tier = .ok outcome.isOk) ∧
      ((∃ fault, p.objective x = .error fault) ↔ x.length ≠ p.unknowns) := by
  refine ⟨?_, Problem.objective_stops_iff hp.shaped⟩
  obtain ⟨outcome, houtcome⟩ := exists_check hp c tier
  refine ⟨outcome, houtcome, ?_⟩
  unfold isOptimal
  rw [houtcome]
  rfl

/-- Any `u` with `10³⁰⁸ u = 0`, in double precision. -/
def steep : Problem Float where
  P := ⟨1, 1, #[0, 0], #[], #[]⟩
  q := [0]
  A := ⟨1, 1, #[0, 1], #[0], #[.ofBits 0x7fe1ccf385ebc8a0]⟩
  b := [0]
  blocks := [⟨.equality, 1⟩]

theorem steep_built : steep.Built := by
  with_unfolding_all rfl

/-- A candidate of a value that is no number and too many multipliers; the objective at no value. -/
theorem steep_total :
    (∃ outcome, check steep ⟨some [0 / 0], some [1, 1]⟩ .high = .ok outcome ∧
      isOptimal steep ⟨some [0 / 0], some [1, 1]⟩ .high = .ok outcome.isOk) ∧
      ∃ fault, steep.objective [] = .error fault := by
  obtain ⟨hcheck, hobjective⟩ := total steep_built ⟨some [0 / 0], some [1, 1]⟩ .high []
  exact ⟨hcheck, hobjective.mpr (by decide)⟩

end Kkt

end QpReferee

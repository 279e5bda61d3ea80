import QpReferee.Proofs.Ieee.Vectors
import QpReferee.Proofs.Kkt.Accepted

/-!
# Residuals that overflow

A tolerance grows with the products that its residual is computed from. Where a product overflows, both
are infinite, and the comparison passes. Nothing else can overflow unseen: a residual above finite
products is compared with a finite tolerance, and the duality gap with a constant one.

* `Kkt.ax_finite_of_rows` : finite residuals of the rows come from finite products.
* `Kkt.norm_finite_of_le` : a norm that passes a comparison with a finite size is finite.
* `Kkt.gap_finite` : the costs and the gap of a candidate that passes are finite.
* `Kkt.accepted_finite_iff` : **the residuals of an accepted candidate are finite exactly if its products
  are.**
-/

namespace QpReferee.Kkt

variable {T : Type} [Scalar T]

/-- All fields are finite. -/
structure Residuals.IsFinite (r : Residuals T) : Prop where
  primal : Scalar.isFinite r.primal = true
  dualSign : Scalar.isFinite r.dualSign = true
  stationarity : Scalar.isFinite r.stationarity = true
  complementarity : Scalar.isFinite r.complementarity = true
  costPrimal : Scalar.isFinite r.costPrimal = true
  costDual : Scalar.isFinite r.costDual = true
  gapAbsolute : Scalar.isFinite r.gapAbsolute = true
  gapRelative : Scalar.isFinite r.gapRelative = true

/-- No product overflows. -/
structure Products.IsFinite (w : Products T) : Prop where
  ax : Vec.isFinite w.ax = true
  px : Vec.isFinite w.px = true
  aty : Vec.isFinite w.aty = true

variable [IeeeScalar T] {p : Problem T} {x y : List T} {w : Products T} {tier : Tier} {r : Residuals T}

/-! ## Residuals of finite and of infinite products -/

theorem ax_finite_of_row {kind : RowKind} {ax b y : T}
    (hviolation : Scalar.isFinite (RowReading.of kind ax b y).violation = true)
    (hproduct : Scalar.isFinite ((RowReading.of kind ax b y).slack * y) = true) :
    Scalar.isFinite ax = true := by
  cases kind with
  | equality =>
    change Scalar.isFinite (Scalar.abs (ax - b)) = true at hviolation
    rw [IeeeScalar.isFinite_abs] at hviolation
    exact (IeeeScalar.isFinite_of_sub hviolation).1
  -- a violation of minus infinity is dropped, its slack is not
  | inequality =>
    have hslack : Scalar.isFinite (b - ax) = true := (IeeeScalar.isFinite_of_mul hproduct).1
    exact (IeeeScalar.isFinite_of_sub hslack).2

theorem ax_finite_of_rows {kinds : List RowKind} {ax b y : List T} (hax : ax.length = kinds.length)
    (hb : b.length = kinds.length) (hy : y.length = kinds.length)
    (hviolation : Vec.isFinite ((readRows kinds ax b y).map (·.violation)) = true)
    (hproduct : Vec.isFinite (Vec.hadamard ((readRows kinds ax b y).map (·.slack)) y) = true) :
    Vec.isFinite ax = true := by
  induction kinds generalizing ax b y with
  | nil =>
    rw [List.length_eq_zero_iff.mp hax]
    rfl
  | cons kind kinds ih =>
    obtain ⟨a, ax, rfl⟩ := List.exists_cons_of_length_eq_add_one hax
    obtain ⟨c, b, rfl⟩ := List.exists_cons_of_length_eq_add_one hb
    obtain ⟨v, y, rfl⟩ := List.exists_cons_of_length_eq_add_one hy
    have hrows : readRows (kind :: kinds) (a :: ax) (c :: b) (v :: y) =
        RowReading.of kind a c v :: readRows kinds ax b y := rfl
    rw [hrows, List.map_cons] at hviolation hproduct
    rw [Vec.hadamard, List.zipWith_cons_cons] at hproduct
    obtain ⟨hfirst, hviolation⟩ := (Vec.isFinite_cons _ _).mp hviolation
    obtain ⟨hslack, hproduct⟩ := (Vec.isFinite_cons _ _).mp hproduct
    refine (Vec.isFinite_cons a ax).mpr ⟨ax_finite_of_row hfirst hslack, ?_⟩
    exact ih (Nat.succ.inj hax) (Nat.succ.inj hb) (Nat.succ.inj hy) hviolation hproduct

theorem norm_finite_of_le {v : List T} {size : T} (hsize : Scalar.isFinite size = true)
    (h : Scalar.le (Vec.norm v) (toleranceAt tier size) = true) : Scalar.isFinite (Vec.norm v) = true :=
  IeeeScalar.isFinite_of_le (Vec.zero_le_norm (IeeeScalar.isNaN_of_le h).1) h
    (IeeeScalar.isFinite_tolerance tier hsize)

theorem gap_finite (hr : Measured p x y w r) (hgap : Scalar.le r.gapAbsolute tier.absolute = true ∨
    Scalar.le r.gapRelative tier.relative = true) :
    Scalar.isFinite r.costPrimal = true ∧ Scalar.isFinite r.costDual = true ∧
      Scalar.isFinite r.gapAbsolute = true ∧ Scalar.isFinite r.gapRelative = true := by
  have hsize := Scalar.one_le_max (Scalar.min (Scalar.abs r.costPrimal) (Scalar.abs r.costDual))
  -- both comparisons bound the difference of the costs by a constant
  have hdifference : Scalar.isFinite (r.costPrimal - r.costDual) = true := by
    rcases hgap with hgap | hgap
    · rw [hr.gapAbsolute] at hgap
      exact IeeeScalar.isFinite_of_abs_le hgap (IeeeScalar.isFinite_absolute tier)
    · rw [hr.gapRelative, hr.gapAbsolute] at hgap
      exact IeeeScalar.isFinite_of_div_le hsize hgap (IeeeScalar.isFinite_absolute tier)
  have hgapAbsolute : Scalar.isFinite r.gapAbsolute = true := by
    rw [hr.gapAbsolute, IeeeScalar.isFinite_abs]
    exact hdifference
  obtain ⟨hprimal, hdual⟩ := IeeeScalar.isFinite_of_sub hdifference
  refine ⟨hprimal, hdual, hgapAbsolute, ?_⟩
  rw [hr.gapRelative]
  exact IeeeScalar.isFinite_div hgapAbsolute hsize

/-! ## Accepted candidates -/

theorem rows_finite_iff (hp : p.Shaped) (hw : w.Fits p) (hy : y.length = p.rows)
    (hfinite : Vec.isFinite y = true) (hr : Measured p x y w r) (hpasses : Passes tier (scales p.q y w) r) :
    Scalar.isFinite r.primal = true ∧ Scalar.isFinite r.complementarity = true ↔
      Vec.isFinite w.ax = true := by
  have hkinds := hp.kinds
  constructor
  · rintro ⟨hprimal, hcomplementarity⟩
    rw [hr.primal, Vec.isFinite_norm] at hprimal
    rw [hr.complementarity, Vec.isFinite_norm] at hcomplementarity
    exact ax_finite_of_rows (hw.ax.trans hkinds.symm) hkinds.symm (hy.trans hkinds.symm) hprimal
      hcomplementarity
  · intro hax
    have hprimal := hpasses.primal
    have hcomplementarity := hpasses.complementarity
    have hnorm := (Vec.isFinite_norm w.ax).mpr hax
    rw [hr.primal] at hprimal ⊢
    rw [hr.complementarity] at hcomplementarity ⊢
    refine ⟨norm_finite_of_le hnorm hprimal, norm_finite_of_le ?_ hcomplementarity⟩
    exact Scalar.isFinite_max_of hnorm ((Vec.isFinite_norm y).mpr hfinite)

theorem stationarity_finite_iff (hp : p.Shaped) (hr : Measured p x y w r)
    (hpasses : Passes tier (scales p.q y w) r) :
    Scalar.isFinite r.stationarity = true ↔ Vec.isFinite w.px = true ∧ Vec.isFinite w.aty = true := by
  obtain ⟨g, hg, hstationarity⟩ := hr.stationarity
  have hle := hpasses.stationarity
  rw [hstationarity] at hle ⊢
  constructor
  · intro h
    obtain ⟨hpx, haty⟩ := gradient_parts inherited_finite hg (Vec.isFinite_iff.mp ((Vec.isFinite_norm g).mp h))
    exact ⟨Vec.isFinite_iff.mpr hpx, Vec.isFinite_iff.mpr haty⟩
  · rintro ⟨hpx, haty⟩
    refine norm_finite_of_le (Scalar.isFinite_max_of ((Vec.isFinite_norm w.px).mpr hpx)
      (Scalar.isFinite_max_of ((Vec.isFinite_norm p.q).mpr hp.linear_finite) ?_)) hle
    exact (Vec.isFinite_norm w.aty).mpr haty

theorem dualSign_finite (hfinite : Vec.isFinite y = true) (hr : Measured p x y w r)
    (hpasses : Passes tier (scales p.q y w) r) : Scalar.isFinite r.dualSign = true := by
  have hle := hpasses.dualSign
  rw [hr.dualSign] at hle ⊢
  exact norm_finite_of_le ((Vec.isFinite_norm y).mpr hfinite) hle

/-- **The residuals of an accepted candidate are finite exactly if its products are.** Those of the rows
come from the product with the constraints, the stationarity from the two others; the sign of the
multipliers, the costs and the gap are finite in any case. -/
theorem accepted_finite_iff (hp : p.Built) {c : Candidate T} (h : check p c tier = .ok (.ok r)) :
    ∃ x y w, c = ⟨some x, some y⟩ ∧ products p x y = .ok w ∧
      (r.IsFinite ↔ w.IsFinite) ∧
      (Scalar.isFinite r.primal = true ∧ Scalar.isFinite r.complementarity = true ↔
        Vec.isFinite w.ax = true) ∧
      (Scalar.isFinite r.stationarity = true ↔ Vec.isFinite w.px = true ∧ Vec.isFinite w.aty = true) ∧
      Scalar.isFinite r.dualSign = true ∧ Scalar.isFinite r.costPrimal = true ∧
      Scalar.isFinite r.costDual = true ∧ Scalar.isFinite r.gapAbsolute = true ∧
      Scalar.isFinite r.gapRelative = true := by
  obtain ⟨x, y, w, hadmissible, hproducts, hmeasure, hpasses⟩ := accepted_iff.mp h
  obtain ⟨hc, hx, hy, -, hfinite⟩ := admissible_eq_ok.mp hadmissible
  obtain ⟨w', hw', hfits⟩ := exists_products hp.shaped hx hy
  cases hproducts.symm.trans hw'
  have hr := measured_of_measure hmeasure
  have hrows := rows_finite_iff hp.shaped hfits hy hfinite hr hpasses
  have hstationarity := stationarity_finite_iff hp.shaped hr hpasses
  have hsign := dualSign_finite hfinite hr hpasses
  obtain ⟨hprimal, hdual, habsolute, hrelative⟩ := gap_finite hr hpasses.gap
  refine ⟨x, y, w, hc, hproducts, ⟨fun hall => ?_, fun hall => ?_⟩, hrows, hstationarity, hsign, hprimal,
    hdual, habsolute, hrelative⟩
  · obtain ⟨hpx, haty⟩ := hstationarity.mp hall.stationarity
    exact ⟨hrows.mp ⟨hall.primal, hall.complementarity⟩, hpx, haty⟩
  · obtain ⟨hviolation, hslack⟩ := hrows.mpr hall.ax
    exact ⟨hviolation, hsign, hstationarity.mpr ⟨hall.px, hall.aty⟩, hslack, hprimal, hdual, habsolute,
      hrelative⟩

theorem steep_accepts : ∃ r, check steep ⟨some [100], some [0]⟩ .high = .ok (.ok r) ∧
    Scalar.isFinite r.primal = false := by
  have hrun : ((check steep ⟨some [100], some [0]⟩ .high).toOption.bind Except.toOption).any
      (fun r => !Scalar.isFinite r.primal) = true := by
    decide +kernel
  obtain ⟨r, hr, hprimal⟩ := exists_accepted hrun
  exact ⟨r, hr, (Bool.not_eq_true' _).mp hprimal⟩

/-- A finite candidate is accepted with an infinite residual. -/
theorem infinite_residual_accepted : steep.Built ∧ Vec.isFinite [(100 : Float)] = true ∧
    Vec.isFinite [(0 : Float)] = true ∧
      ∃ r, check steep ⟨some [100], some [0]⟩ .high = .ok (.ok r) ∧ ¬r.IsFinite := by
  obtain ⟨r, hr, hprimal⟩ := steep_accepts
  refine ⟨steep_built, by with_unfolding_all rfl, by with_unfolding_all rfl, r, hr, fun hall => ?_⟩
  rw [hall.primal] at hprimal
  cases hprimal

/-- The product of the accepted point overflows; its costs and the gap are finite. -/
theorem steep_overflows : ∃ r w, check steep ⟨some [100], some [0]⟩ .high = .ok (.ok r) ∧
    products steep [100] [0] = .ok w ∧ ¬w.IsFinite ∧ Scalar.isFinite r.costPrimal = true ∧
      Scalar.isFinite r.costDual = true ∧ Scalar.isFinite r.gapAbsolute = true := by
  obtain ⟨r, hr, hprimal⟩ := steep_accepts
  obtain ⟨x, y, w, hc, hw, hall, -, -, -, hcost, hdual, hgap, -⟩ := accepted_finite_iff steep_built hr
  cases hc
  refine ⟨r, w, hr, hw, fun hfinite => ?_, hcost, hdual, hgap⟩
  rw [(hall.mpr hfinite).primal] at hprimal
  cases hprimal

end QpReferee.Kkt

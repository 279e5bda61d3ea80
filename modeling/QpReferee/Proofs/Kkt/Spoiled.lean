import QpReferee.Proofs.Kkt.Accepted

/-!
# Candidates whose check meets a value that is no number

The maximum that reads a row drops a value that is no number, and so does the maximum that sizes a
tolerance. Nothing is accepted that way: what a maximum drops reaches another comparison, by a norm.

* `Kkt.Spoiled` : the places at which the check can meet such a value.
* `Kkt.Spoiled.not_passes` : each of them fails a comparison.
* `Kkt.numbers_of_passes` : residuals that pass are numbers.
* `Kkt.spoiled_refused` : **a spoiled candidate is refused, and an accepted one was measured on numbers.**
-/

namespace QpReferee.Kkt

variable {T : Type} [Scalar T] {p : Problem T} {x y : List T} {w : Products T} {tier : Tier}
  {r : Residuals T}

/-- All fields are numbers. -/
structure Residuals.Numbers (r : Residuals T) : Prop where
  primal : Scalar.isNaN r.primal = false
  dualSign : Scalar.isNaN r.dualSign = false
  stationarity : Scalar.isNaN r.stationarity = false
  complementarity : Scalar.isNaN r.complementarity = false
  costPrimal : Scalar.isNaN r.costPrimal = false
  costDual : Scalar.isNaN r.costDual = false
  gapAbsolute : Scalar.isNaN r.gapAbsolute = false
  gapRelative : Scalar.isNaN r.gapRelative = false

/-- An entry of a product, the slack of an inequality row times its multiplier, or a cost is no number. -/
inductive Spoiled (p : Problem T) (y : List T) (w : Products T) (r : Residuals T) : Prop
  | ax {a : T} : a ∈ w.ax → Scalar.isNaN a = true → Spoiled p y w r
  | px {a : T} : a ∈ w.px → Scalar.isNaN a = true → Spoiled p y w r
  | aty {a : T} : a ∈ w.aty → Scalar.isNaN a = true → Spoiled p y w r
  | slack {i : ℕ} {a b v : T} : p.rowKinds[i]? = some .inequality → w.ax[i]? = some a → p.b[i]? = some b →
      y[i]? = some v → Scalar.isNaN ((b - a) * v) = true → Spoiled p y w r
  | costPrimal : Scalar.isNaN r.costPrimal = true → Spoiled p y w r
  | costDual : Scalar.isNaN r.costDual = true → Spoiled p y w r

theorem mem_slackProducts {kinds : List RowKind} {ax b y : List T} {i : ℕ} {a c v : T}
    (hkind : kinds[i]? = some .inequality) (ha : ax[i]? = some a) (hc : b[i]? = some c)
    (hv : y[i]? = some v) :
    (c - a) * v ∈ Vec.hadamard ((readRows kinds ax b y).map (·.slack)) y := by
  have hrow := getElem?_readRows hkind ha hc hv
  refine List.mem_of_getElem? (i := i) ?_
  rw [Vec.hadamard, List.getElem?_zipWith, List.getElem?_map, hrow, hv]
  rfl

variable [StickyScalar T]

theorem number_of_toleranceAt {size : T} (h : Scalar.isNaN (toleranceAt tier size) = false) :
    Scalar.isNaN size = false :=
  (StickyScalar.isNaN_of_mul (StickyScalar.isNaN_of_add h).2).2

theorem numbers_of_gap (hr : Measured p x y w r) (hgap : Scalar.le r.gapAbsolute tier.absolute = true ∨
    Scalar.le r.gapRelative tier.relative = true) :
    Scalar.isNaN r.costPrimal = false ∧ Scalar.isNaN r.costDual = false ∧
      Scalar.isNaN r.gapAbsolute = false := by
  have habsolute : Scalar.isNaN r.gapAbsolute = false := by
    rcases hgap with hgap | hgap
    · exact (StickyScalar.isNaN_of_le hgap).1
    · have hquotient := (StickyScalar.isNaN_of_le hgap).1
      rw [hr.gapRelative] at hquotient
      exact (StickyScalar.isNaN_of_div hquotient).1
  have hdifference := habsolute
  rw [hr.gapAbsolute, StickyScalar.isNaN_abs] at hdifference
  obtain ⟨hprimal, hdual⟩ := StickyScalar.isNaN_of_sub hdifference
  exact ⟨hprimal, hdual, habsolute⟩

/-- Each place at which a value is no number fails a comparison. -/
theorem Spoiled.not_passes (hr : Measured p x y w r) (h : Spoiled p y w r) :
    ¬Passes tier (scales p.q y w) r := by
  intro hpasses
  obtain ⟨g, hg, hstationarity⟩ := hr.stationarity
  have hgradient : Vec.Numbers g := by
    refine Vec.numbers_of_norm ?_
    rw [← hstationarity]
    exact (StickyScalar.isNaN_of_le hpasses.stationarity).1
  obtain ⟨hpx, haty⟩ := gradient_parts inherited_number hg hgradient
  obtain ⟨hprimal, hdual, -⟩ := numbers_of_gap hr hpasses.gap
  cases h with
  -- a row may drop it, but the tolerance of the rows is no number
  | ax hmem hnan =>
    have htolerance := (StickyScalar.isNaN_of_le hpasses.primal).2
    exact (Vec.numbers_of_norm (number_of_toleranceAt htolerance)).not_isNaN hmem hnan
  | px hmem hnan => exact Vec.Numbers.not_isNaN hpx hmem hnan
  | aty hmem hnan => exact Vec.Numbers.not_isNaN haty hmem hnan
  | slack hkind ha hb hv hnan =>
    have hproducts := (StickyScalar.isNaN_of_le hpasses.complementarity).1
    rw [hr.complementarity] at hproducts
    exact (Vec.numbers_of_norm hproducts).not_isNaN (mem_slackProducts hkind ha hb hv) hnan
  | costPrimal hnan => exact absurd hnan (Bool.eq_false_iff.mp hprimal)
  | costDual hnan => exact absurd hnan (Bool.eq_false_iff.mp hdual)

variable [OrderedTiers T]

/-- A gap within a tolerance is finite, so its quotient by a number from one on is a number. -/
theorem number_of_gapRelative (hr : Measured p x y w r)
    (hgap : Scalar.le r.gapAbsolute tier.absolute = true ∨ Scalar.le r.gapRelative tier.relative = true) :
    Scalar.isNaN r.gapRelative = false := by
  rcases hgap with hgap | hgap
  · rw [hr.gapRelative]
    refine StickyScalar.isNaN_div ?_ (Scalar.one_le_max _)
    rw [hr.gapAbsolute] at hgap ⊢
    rw [StickyScalar.isFinite_abs]
    exact StickyScalar.isFinite_of_abs_le hgap (OrderedTiers.isFinite_absolute tier)
  · exact (StickyScalar.isNaN_of_le hgap).1

theorem numbers_of_passes (hr : Measured p x y w r) (hpasses : Passes tier (scales p.q y w) r) :
    r.Numbers := by
  obtain ⟨hprimal, hdual, hgap⟩ := numbers_of_gap hr hpasses.gap
  exact {
    primal := (StickyScalar.isNaN_of_le hpasses.primal).1
    dualSign := (StickyScalar.isNaN_of_le hpasses.dualSign).1
    stationarity := (StickyScalar.isNaN_of_le hpasses.stationarity).1
    complementarity := (StickyScalar.isNaN_of_le hpasses.complementarity).1
    costPrimal := hprimal
    costDual := hdual
    gapAbsolute := hgap
    gapRelative := number_of_gapRelative hr hpasses.gap }

/-- **A spoiled candidate is refused, and an accepted one was measured on numbers.** On vectors of the
right lengths everything is computed; where a value is no number then, the answer is a failure; and an
answer that is none has residuals that are numbers, of products that are numbers. -/
theorem spoiled_refused (hp : p.Built) (x y : List T) (tier : Tier) :
    (x.length = p.unknowns → y.length = p.rows →
      ∃ w r, products p x y = .ok w ∧ measure p x y w = .ok r) ∧
    (∀ w r, products p x y = .ok w → measure p x y w = .ok r → Spoiled p y w r →
      ∃ failure, check p ⟨some x, some y⟩ tier = .ok (.error failure)) ∧
    ∀ r, check p ⟨some x, some y⟩ tier = .ok (.ok r) →
      r.Numbers ∧ ∃ w, products p x y = .ok w ∧ measure p x y w = .ok r ∧ ¬Spoiled p y w r := by
  have haccepted : ∀ r, check p ⟨some x, some y⟩ tier = .ok (.ok r) → ∃ w, products p x y = .ok w ∧
      measure p x y w = .ok r ∧ Passes tier (scales p.q y w) r := by
    intro r h
    obtain ⟨x', y', w, hadmitted, hw, hr, hpasses⟩ := accepted_iff.mp h
    cases (admissible_eq_ok.mp hadmitted).1
    exact ⟨w, hw, hr, hpasses⟩
  refine ⟨fun hx hy => ?_, fun w r hw hr hspoiled => ?_, fun r h => ?_⟩
  · obtain ⟨w, hw, hfits⟩ := exists_products hp.shaped hx hy
    obtain ⟨r, hr⟩ := exists_measure hp.shaped hx hy hfits
    exact ⟨w, r, hw, hr⟩
  · obtain ⟨outcome, houtcome⟩ := exists_check hp ⟨some x, some y⟩ tier
    cases outcome with
    | error failure => exact ⟨failure, houtcome⟩
    | ok r' =>
      obtain ⟨w', hw', hr', hpasses⟩ := haccepted r' houtcome
      cases hw.symm.trans hw'
      cases hr.symm.trans hr'
      exact absurd hpasses (hspoiled.not_passes (measured_of_measure hr))
  · obtain ⟨w, hw, hr, hpasses⟩ := haccepted r h
    have hmeasured := measured_of_measure hr
    exact ⟨numbers_of_passes hmeasured hpasses, w, hw, hr, fun hspoiled =>
      hspoiled.not_passes hmeasured hpasses⟩

/-- Any `u` and `v` with `10³⁰⁸ u - 10³⁰⁸ v ≤ 0`, in double precision. -/
def clash : Problem Float where
  P := ⟨2, 2, #[0, 0, 0], #[], #[]⟩
  q := [0, 0]
  A := ⟨1, 2, #[0, 1, 2], #[0, 0], #[.ofBits 0x7fe1ccf385ebc8a0, .ofBits 0xffe1ccf385ebc8a0]⟩
  b := [0]
  blocks := [⟨.inequality, 1⟩]

theorem clash_built : clash.Built := by
  with_unfolding_all rfl

/-- At `u = v = 100` the two infinite terms of the row have no sum. The violation of the row drops that and
is zero; the point is refused all the same. The origin is accepted. -/
theorem clash_refused :
    (∃ w r, products clash [100, 100] [0] = .ok w ∧ measure clash [100, 100] [0] w = .ok r ∧
      (∃ a ∈ w.ax, Scalar.isNaN a = true) ∧ Scalar.eq r.primal 0 = true ∧
        ∃ failure, check clash ⟨some [100, 100], some [0]⟩ .standard = .ok (.error failure)) ∧
    ∃ r, check clash ⟨some [0, 0], some [0]⟩ .high = .ok (.ok r) ∧ r.Numbers := by
  obtain ⟨hcomputed, hrefused, -⟩ := spoiled_refused clash_built [100, 100] [0] .standard
  obtain ⟨-, -, haccepted⟩ := spoiled_refused clash_built [0, 0] [0] .high
  obtain ⟨w, r, hw, hr⟩ := hcomputed (by decide) (by decide)
  have hrow : (products clash [100, 100] [0]).toOption.any (·.ax.any Scalar.isNaN) = true := by
    decide +kernel
  have hprimal : ((products clash [100, 100] [0]).toOption.bind
      (fun w => (measure clash [100, 100] [0] w).toOption)).any (Scalar.eq ·.primal 0) = true := by
    decide +kernel
  have horigin : ((check clash ⟨some [0, 0], some [0]⟩ .high).toOption.bind Except.toOption).isSome := by
    decide +kernel
  rw [hw] at hrow hprimal
  obtain ⟨a, ha, hnan⟩ := List.any_eq_true.mp hrow
  have hzero : (measure clash [100, 100] [0] w).toOption.any (Scalar.eq ·.primal 0) = true := hprimal
  rw [hr] at hzero
  refine ⟨⟨w, r, hw, hr, ⟨a, ha, hnan⟩, hzero, hrefused w r hw hr (.ax ha hnan)⟩, ?_⟩
  obtain ⟨outcome, houtcome⟩ := exists_check clash_built ⟨some [0, 0], some [0]⟩ .high
  rw [houtcome] at horigin
  cases outcome with
  | error failure => cases horigin
  | ok r' => exact ⟨r', houtcome, (haccepted r' houtcome).1⟩

end QpReferee.Kkt

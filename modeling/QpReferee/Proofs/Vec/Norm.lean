import QpReferee.Proofs.Ieee.Special
import QpReferee.Proofs.Ieee.Vectors

/-!
# What a norm is

A norm that compares would lose an entry that is no number, for the greater of two scalars is the one that
is a number. So the search ends at such an entry. Up to there it keeps the largest absolute value it has
met: its bound only grows, `abs_le_normFrom` says that no entry stays above it, and `normFrom_attained` that
it is the starting value or some entry's.

* `Vec.IsNorm` : the norm of a vector: no number if an entry is none, and else the largest absolute value.
* `Vec.IsNorm.same` : entries have one norm, in whatever order they stand.
* `Vec.isNorm_norm` : **the search finds the norm.**
* `Vec.norm_laws` : **the laws of the two norms.**
-/

namespace QpReferee.Vec

section

variable {T : Type} [Scalar T]

/-- The norm of a vector: no number if an entry is none, and otherwise the largest absolute value of the
entries, or zero if there are none. -/
structure IsNorm (v : List T) (c : T) : Prop where
  isNaN_iff : Scalar.isNaN c = true ↔ ∃ a ∈ v, Scalar.isNaN a = true
  nonneg : Numbers v → Scalar.le 0 c = true
  bound : Numbers v → ∀ a ∈ v, Scalar.le (Scalar.abs a) c = true
  attained : Numbers v → v = [] ∧ c = 0 ∨ ∃ a ∈ v, c = Scalar.abs a

theorem not_numbers_iff {v : List T} : ¬Numbers v ↔ ∃ a ∈ v, Scalar.isNaN a = true := by
  simp [Numbers]

theorem Numbers.perm {v w : List T} (h : v.Perm w) (hv : Numbers v) : Numbers w :=
  fun a ha => hv a (h.mem_iff.mpr ha)

theorem IsNorm.le {v w : List T} {c d : T} (hc : IsNorm v c) (hd : IsNorm w d) (h : v.Perm w)
    (hv : Numbers v) : Scalar.le c d = true := by
  rcases hc.attained hv with ⟨-, rfl⟩ | ⟨a, ha, rfl⟩
  · exact hd.nonneg (hv.perm h)
  · exact hd.bound (hv.perm h) a (h.mem_iff.mp ha)

/-! ## Products of entries -/

theorem hadamard_eq_map (x y : List T) : hadamard x y = (x.zip y).map fun p => p.1 * p.2 :=
  List.map_uncurry_zip_eq_zipWith.symm

theorem hadamardNorm_eq_ok {x y : List T} {c : T} :
    hadamardNorm x y = .ok c ↔ x.length = y.length ∧ norm (hadamard x y) = c := by
  unfold hadamardNorm
  rw [Checked.bind_eq_ok]
  constructor
  · rintro ⟨_, hlength, h⟩
    exact ⟨demand_eq_ok.mp hlength, Except.ok.inj h⟩
  · rintro ⟨hlength, rfl⟩
    exact ⟨(), demand_of hlength _, rfl⟩

theorem hadamardNorm_stops {x y : List T} :
    (∃ fault, hadamardNorm x y = .error fault) ↔ x.length ≠ y.length := by
  constructor
  · rintro ⟨fault, h⟩ hlength
    rw [hadamardNorm_eq_ok.mpr ⟨hlength, rfl⟩] at h
    cases h
  · intro hlength
    exact ⟨.length, by rw [hadamardNorm, demand_of_not hlength]; rfl⟩

end

/-! ## The search -/

section

variable {T : Type} [Scalar T] [OrderedScalar T] {v : List T} {bound : T}

theorem norm_cons {a : T} (ha : Scalar.isNaN a = false) (v : List T) :
    norm (a :: v) = normFrom (Scalar.abs a) v := by
  have hpos := OrderedScalar.zero_le_abs ha
  obtain ⟨hzero, habs⟩ := OrderedScalar.isNaN_of_le hpos
  rw [norm, normFrom_cons ha, Scalar.max, hzero, habs, if_neg (by decide), if_neg (by decide), if_pos hpos]

theorem abs_le_normFrom (hv : Numbers v) (hbound : Scalar.isNaN bound = false) :
    ∀ a ∈ v, Scalar.le (Scalar.abs a) (normFrom bound v) = true := by
  induction v generalizing bound with
  | nil => simp
  | cons a v ih =>
    obtain ⟨ha, hv⟩ := List.forall_mem_cons.mp hv
    have habs := Scalar.isNaN_abs ha
    have hraised := Scalar.le_max_right hbound habs
    have hnumber := (OrderedScalar.isNaN_of_le hraised).2
    rw [normFrom_cons ha]
    exact List.forall_mem_cons.mpr
      ⟨OrderedScalar.le_trans hraised (le_normFrom hv hnumber), ih hv hnumber⟩

/-- The bound that is left is the first one or an entry's absolute value. -/
theorem normFrom_attained (hv : Numbers v) (hbound : Scalar.isNaN bound = false) :
    normFrom bound v = bound ∨ ∃ a ∈ v, normFrom bound v = Scalar.abs a := by
  induction v generalizing bound with
  | nil => exact .inl rfl
  | cons a v ih =>
    obtain ⟨ha, hv⟩ := List.forall_mem_cons.mp hv
    have habs := Scalar.isNaN_abs ha
    rw [normFrom_cons ha]
    rcases ih hv (OrderedScalar.isNaN_of_le (Scalar.le_max_left hbound habs)).2 with hstays | ⟨b, hb, hat⟩
    · rw [hstays]
      exact (Scalar.max_cases hbound habs).elim (fun h => .inr ⟨a, List.mem_cons_self, h.1⟩)
        fun h => .inl h.1
    · exact .inr ⟨b, List.mem_cons_of_mem _ hb, hat⟩

/-! ## The norm -/

theorem norm_attained (hv : Numbers v) : v = [] ∧ norm v = 0 ∨ ∃ a ∈ v, norm v = Scalar.abs a := by
  cases v with
  | nil => exact .inl ⟨rfl, rfl⟩
  | cons a v =>
    obtain ⟨ha, hv⟩ := List.forall_mem_cons.mp hv
    rw [norm_cons ha]
    rcases normFrom_attained hv (Scalar.isNaN_abs ha) with hfirst | ⟨b, hb, hat⟩
    · exact .inr ⟨a, List.mem_cons_self, hfirst⟩
    · exact .inr ⟨b, List.mem_cons_of_mem _ hb, hat⟩

/-- **The search finds the norm.** -/
theorem isNorm_norm (v : List T) : IsNorm v (norm v) := by
  have hzero : Scalar.isNaN (0 : T) = false := (OrderedScalar.isNaN_of_le OrderedScalar.zero_le_zero).1
  have hnonneg (hv : Numbers v) : Scalar.le 0 (norm v) = true := le_normFrom hv hzero
  constructor
  case isNaN_iff =>
    rw [← not_numbers_iff, ← Bool.not_eq_false, not_iff_not]
    exact ⟨numbers_of_norm, fun hv => (OrderedScalar.isNaN_of_le (hnonneg hv)).2⟩
  case nonneg => exact hnonneg
  case bound => exact fun hv => abs_le_normFrom hv hzero
  case attained => exact norm_attained

end

/-! ## One norm -/

section

variable {T : Type} [Scalar T] [IeeeScalar T]

/-- **Entries have one norm, in whatever order they stand.** -/
theorem IsNorm.same {v w : List T} {c d : T} (hc : IsNorm v c) (hd : IsNorm w d) (h : v.Perm w) :
    Scalar.Same c d := by
  by_cases hv : Numbers v
  · exact IeeeScalar.same_of_le (hc.le hd h hv) (hd.le hc h.symm (hv.perm h))
  · have hw : ¬Numbers w := fun hw => hv (hw.perm h.symm)
    exact .inr ⟨hc.isNaN_iff.mpr (not_numbers_iff.mp hv), hd.isNaN_iff.mpr (not_numbers_iff.mp hw)⟩

theorem isNaN_norm_hadamard (x y : List T) : Scalar.isNaN (norm (hadamard x y)) = true ↔
    ∃ p ∈ x.zip y, Scalar.isNaN p.1 = true ∨ Scalar.isNaN p.2 = true ∨
      Scalar.Infinite p.1 ∧ Scalar.eq p.2 0 = true ∨ Scalar.eq p.1 0 = true ∧ Scalar.Infinite p.2 := by
  simp only [(isNorm_norm _).isNaN_iff, hadamard_eq_map, List.mem_map, exists_exists_and_eq_and,
    IeeeScalar.isNaN_mul_iff]

/-- **The laws of the two norms.** -/
theorem norm_laws (T : Type) [Scalar T] [IeeeScalar T] :
    (∀ v : List T, IsNorm v (norm v)) ∧
    (∀ v w : List T, v.Perm w → Scalar.Same (norm v) (norm w)) ∧
    (∀ x y : List T, x.length = y.length → ∃ c, hadamardNorm x y = .ok c ∧ IsNorm (hadamard x y) c ∧
      (Scalar.isNaN c = true ↔ ∃ p ∈ x.zip y, Scalar.isNaN p.1 = true ∨ Scalar.isNaN p.2 = true ∨
        Scalar.Infinite p.1 ∧ Scalar.eq p.2 0 = true ∨ Scalar.eq p.1 0 = true ∧ Scalar.Infinite p.2)) ∧
    (∀ (x y x' y' : List T) (c c' : T), hadamardNorm x y = .ok c → hadamardNorm x' y' = .ok c' →
      (x.zip y).Perm (x'.zip y') → Scalar.Same c c') ∧
    ∀ x y : List T, (∃ fault, hadamardNorm x y = .error fault) ↔ x.length ≠ y.length := by
  refine ⟨isNorm_norm, fun v w h => (isNorm_norm v).same (isNorm_norm w) h, fun x y hlength => ?products,
    fun x y x' y' c c' hc hc' h => ?order, fun x y => hadamardNorm_stops⟩
  case products =>
    exact ⟨_, hadamardNorm_eq_ok.mpr ⟨hlength, rfl⟩, isNorm_norm _, isNaN_norm_hadamard x y⟩
  case order =>
    obtain ⟨-, rfl⟩ := hadamardNorm_eq_ok.mp hc
    obtain ⟨-, rfl⟩ := hadamardNorm_eq_ok.mp hc'
    refine (isNorm_norm _).same (isNorm_norm _) ?_
    rw [hadamard_eq_map, hadamard_eq_map]
    exact h.map _

/-- A value that is no number spoils the norm wherever it stands, and so does an infinite entry that meets a
zero; the entries of the one vector may stand in any order if those of the other follow. -/
theorem spoiled_norms :
    let nan : Float := .ofBits 0x7ff8000000000000
    let infinity : Float := .ofBits 0x7ff0000000000000
    (Scalar.isNaN (norm [1, nan]) = true ∧ Scalar.Same (norm [1, nan]) (norm [nan, 1])) ∧
    ∃ c c' : Float, hadamardNorm [1, infinity] [1, 0] = .ok c ∧ Scalar.isNaN c = true ∧
      hadamardNorm [infinity, 1] [0, 1] = .ok c' ∧ Scalar.Same c c' := by
  intro nan infinity
  obtain ⟨hnorm, horder, hproducts, hpairs, -⟩ := norm_laws Float
  obtain ⟨c, hc, -, hspoiled⟩ := hproducts [1, infinity] [1, 0] rfl
  obtain ⟨c', hc', -, -⟩ := hproducts [infinity, 1] [0, 1] rfl
  refine ⟨⟨(hnorm _).isNaN_iff.mpr ⟨nan, by simp, by decide +kernel⟩, horder _ _ (List.Perm.swap ..)⟩,
    c, c', hc, hspoiled.mpr ⟨(infinity, 0), by simp, ?_⟩, hc', hpairs _ _ _ _ c c' hc hc' (List.Perm.swap ..)⟩
  exact .inr (.inr (.inl ⟨⟨by decide +kernel, by decide +kernel⟩, by decide +kernel⟩))

end

end QpReferee.Vec

import QpReferee.Proofs.Ieee.Special
import QpReferee.Proofs.Sparse.Faults
import QpReferee.Proofs.Sparse.Product

/-!
# Products with special values

Where a factor is zero, the general products leave the multiplication out: with `b = 0` the old vector is
dropped, and with `a = 0` neither the matrix nor `x` is read. The symmetric product keeps the first rule
only. With `a = 0` it adds its products all the same, each a zero if both of its factors are finite, and no
number otherwise. So it spoils the entries of the result where they meet a factor that is not finite.

* `IsScaled`, `isScaled_scaleOrReset` : a vector times a number, with the rule for zero.
* `Csc.addends` : what the symmetric product adds to an entry, in its order.
* `Csc.Tainted` : a factor that the symmetric product meets for an entry is not finite.
* `Csc.special_products` : **the three products with a factor that is zero.**
-/

namespace QpReferee

section

variable {T : Type} [Scalar T]

/-- `z` is the vector `y` times `b`; it is zero if `b` is, whatever `y` holds. -/
structure IsScaled (b : T) (y z : List T) : Prop where
  reset : Scalar.eq b 0 = true → z = List.replicate y.length 0
  scaled : Scalar.eq b 0 = false → List.Forall₂ Scalar.Same z (y.map (· * b))

theorem getD_toArray (l : List T) (k : Nat) : l.toArray.getD k 0 = l.getD k 0 := by
  rw [Array.getD_eq_getD_getElem?, List.getElem?_toArray, List.getD_eq_getElem?_getD]

theorem scaleOrReset_zero {b : T} (hb : Scalar.eq b 0 = true) (y : List T) :
    scaleOrReset b y = List.replicate y.length 0 := by
  rw [scaleOrReset, if_pos hb, List.map_const']

end

section

variable {T : Type} [Scalar T] [IeeeScalar T] {a : T}

theorem isScaled_scaleOrReset (b : T) (y : List T) : IsScaled b y (scaleOrReset b y) := by
  refine ⟨fun hb => scaleOrReset_zero hb y, fun hb => ?_⟩
  rw [scaleOrReset, hb, if_neg (by decide)]
  split_ifs with hone
  · exact List.forall₂_map_right_iff.mpr (List.forall₂_same.mpr fun v _ => IeeeScalar.same_mul_one hone v)
  · exact List.forall₂_same.mpr fun v _ => IeeeScalar.same_refl v

/-! ## Sums of zeros and of values that are no number -/

namespace IeeeScalar

theorem isNaN_foldl_add (l : List T) {s : T} (h : Scalar.isNaN (l.foldl (· + ·) s) = false) :
    Scalar.isNaN s = false ∧ Vec.Numbers l := by
  induction l generalizing s with
  | nil => exact ⟨h, by simp [Vec.Numbers]⟩
  | cons d l ih =>
    obtain ⟨hsum, hl⟩ := ih h
    obtain ⟨hs, hd⟩ := isNaN_of_add hsum
    exact ⟨hs, List.forall_mem_cons.mpr ⟨hd, hl⟩⟩

theorem same_foldl_add {l : List T} (h : ∀ d ∈ l, Scalar.eq d 0 = true) (s : T) :
    Scalar.Same (l.foldl (· + ·) s) s := by
  induction l generalizing s with
  | nil => exact same_refl s
  | cons d l ih =>
    obtain ⟨hd, hl⟩ := List.forall_mem_cons.mp h
    exact same_trans (ih hl (s + d)) (same_add_zero hd s)

theorem zero_mul_cases (ha : Scalar.eq a 0 = true) (v c : T) :
    (Scalar.isFinite v = true ∧ Scalar.isFinite c = true → Scalar.eq (a * v * c) 0 = true) ∧
      (¬(Scalar.isFinite v = true ∧ Scalar.isFinite c = true) → Scalar.isNaN (a * v * c) = true) := by
  refine ⟨fun h => eq_zero_mul (eq_zero_mul ha h.1) h.2, fun h => ?_⟩
  by_cases hv : Scalar.isFinite v = true
  · exact isNaN_zero_mul (eq_zero_mul ha hv) (Bool.eq_false_iff.mpr fun hc => h ⟨hv, hc⟩)
  · exact isNaN_mul_iff.mpr (.inl (isNaN_zero_mul ha (Bool.eq_false_iff.mpr hv)))

end IeeeScalar

end

/-! ## What the symmetric product adds -/

namespace Csc

section

variable {T : Type} {A : Csc T} {i k : Nat} {v : T}

/-- For entry `i` of the symmetric product the stored value `v` is multiplied by entry `k` of the vector. -/
def Meets (A : Csc T) (i k : Nat) (v : T) : Prop := (i, v) ∈ A.entries k ∨ (k, v) ∈ A.entries i

theorem WellFormed.lt_cols_of_mem_entries (hA : A.WellFormed) {e : Nat × T} (he : e ∈ A.entries k) :
    k < A.cols := by
  by_contra hk
  have hnone : A.colPtr.getD (k + 1) 0 = 0 := by
    -- no pointer says where a column behind the last one would end
    rw [Array.getD_eq_getD_getElem?, Array.getElem?_eq_none (by have := hA.pointers; omega), Option.getD_none]
  rw [entries, hnone] at he
  simp at he

theorem WellFormed.lt_of_meets (hA : A.WellFormed) (hsquare : A.rows = A.cols) (h : A.Meets i k v) :
    k < A.cols := by
  rcases h with h | h
  · exact hA.lt_cols_of_mem_entries h
  · exact hsquare ▸ hA.lt_of_mem_entries h

end

section

variable {T : Type} [Scalar T]

/-- What the symmetric product adds to entry `i`, in its order. -/
def addends (A : Csc T) (a : T) (x : Array T) (i : Nat) : List T :=
  x.toList.zipIdx.flatMap fun (xj, j) => (A.entries j).flatMap (addendsOf a x xj i j)

/-- For entry `i` the symmetric product meets a stored value or an entry of `x` that is not finite. -/
def Tainted (A : Csc T) (x : List T) (i : Nat) : Prop :=
  ∃ k v, A.Meets i k v ∧ ¬(Scalar.isFinite v = true ∧ Scalar.isFinite (x.getD k 0) = true)

theorem getD_scatteredBoth_addends (A : Csc T) (a : T) (x : Array T) {y : Array T} {i : Nat}
    (hi : i < y.size) :
    (A.scatteredBoth a x y).getD i 0 = (A.addends a x i).foldl (· + ·) (y.getD i 0) := by
  refine getD_foldl_addends (fun e : T × Nat => (A.entries e.2).flatMap (addendsOf a x e.1 i e.2)) _
    (fun y e _ => size_foldl_scatteredEntry a x e.1 e.2 _ y) (fun y hy e _ => ?_) hi
  exact getD_foldl_addends _ _ (fun y e' _ => size_scatteredEntry a x e.1 e.2 y e')
    (fun y hy e' _ => getD_scatteredEntry_addends a x e.1 e.2 e' hy) hy

namespace WellFormed

variable {A : Csc T} {x : List T} {i : Nat}

theorem mem_addends (hA : A.WellFormed) (hsquare : A.rows = A.cols) (hx : x.length = A.cols) (a d : T) :
    d ∈ A.addends a x.toArray i ↔ ∃ k v, A.Meets i k v ∧ d = a * v * x.getD k 0 := by
  have hcolumn {xj : T} {j : Nat} (h : (xj, j) ∈ x.zipIdx) : xj = x.getD j 0 := by
    rw [List.getD_eq_getElem?_getD, List.mk_mem_zipIdx_iff_getElem?.mp h, Option.getD_some]
  simp only [addends, List.mem_flatMap, addendsOf, List.mem_append, getD_toArray]
  constructor
  · rintro ⟨⟨xj, j⟩, hj, ⟨r, v⟩, hentry, hd⟩
    rcases hd with hd | hd
    · split_ifs at hd with hrow
      · subst hrow
        exact ⟨j, v, .inl hentry, by rw [← hcolumn hj]; exact List.mem_singleton.mp hd⟩
      · cases hd
    · split_ifs at hd with hdiag hrow
      · cases hd
      · subst hrow
        exact ⟨r, v, .inr hentry, List.mem_singleton.mp hd⟩
      · cases hd
  · rintro ⟨k, v, hmeets, rfl⟩
    have hindex {j : Nat} (hj : j < A.cols) : (x.getD j 0, j) ∈ x.zipIdx := by
      rw [List.mk_mem_zipIdx_iff_getElem?, List.getD_eq_getElem?_getD,
        List.getElem?_eq_getElem (by omega), Option.getD_some]
    have hk := hA.lt_of_meets hsquare hmeets
    -- on the diagonal both ways to meet are the one entry, which is added once
    by_cases hdiag : k = i
    · subst hdiag
      exact ⟨_, hindex hk, (k, v), hmeets.elim id id, .inl (by simp)⟩
    · rcases hmeets with h | h
      · exact ⟨_, hindex hk, (i, v), h, .inl (by simp)⟩
      · exact ⟨_, hindex (hA.lt_cols_of_mem_entries h), (k, v), h, .inr (by simp [hdiag])⟩

end WellFormed

/-! ## With a factor that is zero -/

/-- A vector that agrees with `s` but at the entries for which the symmetric product with `x` meets a factor
that is not finite; there it holds no number. -/
structure Spoils (A : Csc T) (x s z : List T) : Prop where
  length_eq : z.length = s.length
  isNaN_of_tainted : ∀ i < s.length, A.Tainted x i → Scalar.isNaN (z.getD i 0) = true
  same_of_not_tainted : ∀ i < s.length, ¬A.Tainted x i → Scalar.Same (z.getD i 0) (s.getD i 0)

variable {A : Csc T} {b : T} {y y' : List T}

theorem gemv_reset (hb : Scalar.eq b 0 = true) (hlength : y'.length = y.length) (x : List T) (a : T) :
    A.gemv y' x a b = A.gemv y x a b := by
  unfold gemv
  rw [scaleOrReset_zero hb, scaleOrReset_zero hb, hlength]

theorem gemvT_reset (hb : Scalar.eq b 0 = true) (hlength : y'.length = y.length) (x : List T) (a : T) :
    A.gemvT y' x a b = A.gemvT y x a b := by
  unfold gemvT
  rw [scaleOrReset_zero hb, scaleOrReset_zero hb, hlength]

theorem upperSymv_reset (hb : Scalar.eq b 0 = true) (hlength : y'.length = y.length) (x : List T) (a : T) :
    A.upperSymv y' x a b = A.upperSymv y x a b := by
  unfold upperSymv symv
  rw [scaleOrReset_zero hb, scaleOrReset_zero hb, hlength]

end

section

variable {T : Type} [Scalar T] [IeeeScalar T] {A : Csc T} {x y z s : List T} {a : T}

/-- The vectors agree where a tainted entry held no number anyway. -/
theorem Spoils.same_iff (h : A.Spoils x s z) : List.Forall₂ Scalar.Same z s ↔
    ∀ i < s.length, A.Tainted x i → Scalar.isNaN (s.getD i 0) = true := by
  have hentries : List.Forall₂ Scalar.Same z s ↔
      ∀ i < s.length, Scalar.Same (z.getD i 0) (s.getD i 0) := by
    rw [List.forall₂_iff_get, and_iff_right h.length_eq]
    refine ⟨fun hsame i hi => ?_, fun hsame i hz hs => ?_⟩
    · have hz : i < z.length := h.length_eq ▸ hi
      simpa [hz, hi] using hsame i hz hi
    · simpa [hz, hs] using hsame i hs
  rw [hentries]
  refine forall₂_congr fun i hi => ⟨fun hsame htainted => ?_, fun hnan => ?_⟩
  · rw [← IeeeScalar.isNaN_of_same hsame]
    exact h.isNaN_of_tainted i hi htainted
  · by_cases htainted : A.Tainted x i
    · exact .inr ⟨h.isNaN_of_tainted i hi htainted, hnan htainted⟩
    · exact h.same_of_not_tainted i hi htainted

theorem WellFormed.symv_spoils (hA : A.WellFormed) (hsquare : A.rows = A.cols) (ha : Scalar.eq a 0 = true)
    (hx : x.length = A.cols) (hy : y.length = A.cols) (b : T) :
    ∃ z, A.symv y x a b = .ok z ∧ A.Spoils x (scaleOrReset b y) z := by
  have hentry (i : Nat) (hi : i < (scaleOrReset b y).length) :
      (A.scatteredBoth a x.toArray (scaleOrReset b y).toArray).toList.getD i 0 =
        (A.addends a x.toArray i).foldl (· + ·) ((scaleOrReset b y).getD i 0) := by
    rw [← getD_toArray, Array.toArray_toList, getD_scatteredBoth_addends A a _ (by simpa using hi),
      getD_toArray]
  refine ⟨_, hA.symv_eq hsquare hx hy a b, ?_⟩
  constructor
  case length_eq => rw [Array.length_toList, size_scatteredBoth, List.size_toArray]
  case isNaN_of_tainted =>
    intro i hi htainted
    obtain ⟨k, v, hmeets, hfactors⟩ := htainted
    have haddend := (hA.mem_addends hsquare hx a _).mpr ⟨k, v, hmeets, rfl⟩
    have hnan := (IeeeScalar.zero_mul_cases ha v (x.getD k 0)).2 hfactors
    rw [hentry i hi]
    by_contra hsum
    exact (IeeeScalar.isNaN_foldl_add _ (Bool.eq_false_iff.mpr hsum)).2.not_isNaN haddend hnan
  case same_of_not_tainted =>
    intro i hi hclean
    rw [hentry i hi]
    refine IeeeScalar.same_foldl_add (fun d hd => ?_) _
    obtain ⟨k, v, hmeets, rfl⟩ := (hA.mem_addends hsquare hx a d).mp hd
    refine (IeeeScalar.zero_mul_cases ha v (x.getD k 0)).1 (by_contra fun hfactors => ?_)
    exact hclean ⟨k, v, hmeets, hfactors⟩

/-- **The three products with a factor that is zero.** With `b = 0` none of them depends on the old vector.
With `a = 0` the general products, of the triangle or of any other matrix in format, return the old vector
times `b`, whatever the matrix stores and `x` holds. The symmetric product returns it as well, but for the
entries for which it meets a factor that is not finite: they are no number. -/
theorem special_products (h : A.checkFormat = .ok (.ok ())) {n : Nat} (hrows : A.rows = n)
    (hcols : A.cols = n) (hupper : A.Upper) (hx : x.length = n) (hy : y.length = n) (a b : T) :
    (Scalar.eq b 0 = true → ∃ z zT zS, ∀ y' : List T, y'.length = n →
      A.gemv y' x a b = .ok z ∧ A.gemvT y' x a b = .ok zT ∧ A.upperSymv y' x a b = .ok zS) ∧
    (Scalar.eq a 0 = true →
      (∀ F : Csc T, F.checkFormat = .ok (.ok ()) → F.rows = n → F.cols = n → ∀ x' : List T, x'.length = n →
        F.gemv y x' a b = .ok (scaleOrReset b y) ∧ F.gemvT y x' a b = .ok (scaleOrReset b y)) ∧
      ∃ z, A.upperSymv y x a b = .ok z ∧ A.Spoils x (scaleOrReset b y) z ∧
        (List.Forall₂ Scalar.Same z (scaleOrReset b y) ↔
          ∀ i < n, A.Tainted x i → Scalar.isNaN ((scaleOrReset b y).getD i 0) = true)) ∧
    IsScaled b y (scaleOrReset b y) := by
  have hA := wellFormed_of_checkFormat h
  have hisUpper := hA.ranged.isUpper_iff.mpr hupper
  have hsquare : A.rows = A.cols := hrows.trans hcols.symm
  refine ⟨fun hb => ?reset, fun ha => ⟨fun F hF hFrows hFcols x' hx' => ?general, ?symmetric⟩,
    isScaled_scaleOrReset b y⟩
  case reset =>
    obtain ⟨z, hz, -⟩ := hA.exists_gemv (hx.trans hcols.symm) (hy.trans hrows.symm) a b
    obtain ⟨zT, hzT, -⟩ := hA.exists_gemvT (hx.trans hrows.symm) (hy.trans hcols.symm) a b
    obtain ⟨zS, hzS, -⟩ := hA.exists_upperSymv hsquare hisUpper (hx.trans hcols.symm) (hy.trans hcols.symm) a b
    refine ⟨z, zT, zS, fun y' hy' => ?_⟩
    have hlength : y'.length = y.length := hy'.trans hy.symm
    exact ⟨(gemv_reset hb hlength x a).trans hz, (gemvT_reset hb hlength x a).trans hzT,
      (upperSymv_reset hb hlength x a).trans hzS⟩
  case general =>
    have hF := wellFormed_of_checkFormat hF
    rw [hF.gemv_eq (hx'.trans hFcols.symm) (hy.trans hFrows.symm), if_pos ha,
      hF.gemvT_eq (hx'.trans hFrows.symm) (hy.trans hFcols.symm), if_pos ha]
    exact ⟨rfl, rfl⟩
  case symmetric =>
    obtain ⟨z, hz, hspoils⟩ := hA.symv_spoils hsquare ha (hx.trans hcols.symm) (hy.trans hcols.symm) b
    refine ⟨z, (upperSymv_eq_symv hisUpper y x a b).trans hz, hspoils, ?_⟩
    have hlength : (scaleOrReset b y).length = n := (length_scaleOrReset b y).trans hy
    rw [hspoils.same_iff, hlength]

/-- The diagonal matrix of one and infinity. -/
def steepDiagonal : Csc Float := ⟨2, 2, #[0, 1, 2], #[0, 1], #[1, .ofBits 0x7ff0000000000000]⟩

/-- With both factors zero the general product returns zeros. The symmetric one meets the infinite entry,
whatever vector it is written over. -/
theorem steepDiagonal_products :
    let nan : Float := .ofBits 0x7ff8000000000000
    steepDiagonal.checkFormat = .ok (.ok ()) ∧ steepDiagonal.Upper ∧ Scalar.eq (0 : Float) 0 = true ∧
    steepDiagonal.gemv [nan, 7] [1, 1] 0 0 = .ok [0, 0] ∧
    ∃ z, steepDiagonal.upperSymv [nan, 7] [1, 1] 0 0 = .ok z ∧
      steepDiagonal.upperSymv [2, 3] [1, 1] 0 0 = .ok z ∧ ¬List.Forall₂ Scalar.Same z [0, 0] := by
  intro nan
  have hformat : steepDiagonal.checkFormat = .ok (.ok ()) := by with_unfolding_all rfl
  have hupper : steepDiagonal.Upper :=
    (wellFormed_of_checkFormat hformat).ranged.isUpper_iff.mp (by with_unfolding_all rfl)
  have hzero : Scalar.eq (0 : Float) 0 = true := by decide +kernel
  have hscaled : scaleOrReset (0 : Float) [nan, 7] = [0, 0] := by with_unfolding_all rfl
  obtain ⟨hreset, hskip, -⟩ := special_products hformat rfl rfl hupper (x := [1, 1]) (y := [nan, 7]) rfl rfl 0 0
  obtain ⟨hgeneral, z, hz, -, hagree⟩ := hskip hzero
  obtain ⟨_, _, zS, hwritten⟩ := hreset hzero
  obtain rfl : zS = z := Except.ok.inj ((hwritten [nan, 7] rfl).2.2.symm.trans hz)
  rw [hscaled] at hgeneral hagree
  refine ⟨hformat, hupper, hzero, (hgeneral _ hformat rfl rfl [1, 1] rfl).1, zS, hz,
    (hwritten [2, 3] rfl).2.2, fun hsame => ?_⟩
  have hinfinite : steepDiagonal.entries 1 = [(1, .ofBits 0x7ff0000000000000)] := by with_unfolding_all rfl
  have htainted : steepDiagonal.Tainted [1, 1] 1 := by
    refine ⟨1, .ofBits 0x7ff0000000000000, .inl (by rw [hinfinite]; exact List.mem_singleton_self _), ?_⟩
    decide +kernel
  have hnan := hagree.mp hsame 1 (by decide) htainted
  revert hnan
  decide +kernel

def loneOne : Csc Float := ⟨1, 1, #[0, 1], #[0], #[1]⟩

/-- With `a = 0` and `b = 1` the general products leave `y` as it is, but the symmetric one multiplies the
value that is no number by zero. -/
theorem zero_factor_spoils :
    let nan : Float := .ofBits 0x7ff8000000000000
    loneOne.checkFormat = .ok (.ok ()) ∧ loneOne.Upper ∧ loneOne.gemv [2] [nan] 0 1 = .ok [2] ∧
    loneOne.gemvT [2] [nan] 0 1 = .ok [2] ∧ loneOne.upperSymv [2] [nan] 0 1 = .ok [nan] ∧
    Scalar.isNaN nan = true ∧ ¬Scalar.Same nan 2 := by
  have hformat : loneOne.checkFormat = .ok (.ok ()) := by with_unfolding_all rfl
  have hupper : loneOne.Upper :=
    (wellFormed_of_checkFormat hformat).ranged.isUpper_iff.mp (by with_unfolding_all rfl)
  refine ⟨hformat, hupper, by with_unfolding_all rfl, by with_unfolding_all rfl, by with_unfolding_all rfl,
    by decide +kernel, ?_⟩
  unfold Scalar.Same
  decide +kernel

end

end Csc

end QpReferee

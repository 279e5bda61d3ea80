import QpReferee.Proofs.Checked
import QpReferee.Proofs.Ordered
import QpReferee.Vec

/-!
# Values that are no number

A value that is no number spoils what is computed from it, and no comparison with it holds. Only the
maximum and the minimum of two scalars drop it.

* `StickyScalar` : the rules. Exact arithmetic has them for want of such values, and both floating point
  types have them.
* `Inherited` : a property that operands have if the result has it, such as being a number.
* `Vec.Numbers`, `Vec.numbers_of_norm` : a norm that is a number is that of numbers.
-/

namespace QpReferee

variable {T : Type} [Scalar T]

/-- Scalars in which a value that is no number spoils sums, differences, products and quotients, and fails
every comparison; and in which the quotient of a finite number by one from one on is a number. -/
class StickyScalar (T : Type) [Scalar T] : Prop where
  isNaN_of_add {a b : T} : Scalar.isNaN (a + b) = false → Scalar.isNaN a = false ∧ Scalar.isNaN b = false
  isNaN_of_sub {a b : T} : Scalar.isNaN (a - b) = false → Scalar.isNaN a = false ∧ Scalar.isNaN b = false
  isNaN_of_mul {a b : T} : Scalar.isNaN (a * b) = false → Scalar.isNaN a = false ∧ Scalar.isNaN b = false
  isNaN_of_div {a b : T} : Scalar.isNaN (a / b) = false → Scalar.isNaN a = false ∧ Scalar.isNaN b = false
  isNaN_abs (a : T) : Scalar.isNaN (Scalar.abs a) = Scalar.isNaN a
  isNaN_of_le {a b : T} : Scalar.le a b = true → Scalar.isNaN a = false ∧ Scalar.isNaN b = false
  one_le_one : Scalar.le (1 : T) 1 = true
  isFinite_abs (a : T) : Scalar.isFinite (Scalar.abs a) = Scalar.isFinite a
  isFinite_of_abs_le {a b : T} : Scalar.le (Scalar.abs a) b = true → Scalar.isFinite b = true →
    Scalar.isFinite a = true
  isNaN_div {a b : T} : Scalar.isFinite a = true → Scalar.le 1 b = true → Scalar.isNaN (a / b) = false

instance {K : Type} [OrderedField K] : StickyScalar K where
  isNaN_of_add _ := ⟨rfl, rfl⟩
  isNaN_of_sub _ := ⟨rfl, rfl⟩
  isNaN_of_mul _ := ⟨rfl, rfl⟩
  isNaN_of_div _ := ⟨rfl, rfl⟩
  isNaN_abs _ := rfl
  isNaN_of_le _ := ⟨rfl, rfl⟩
  one_le_one := by simp
  isFinite_abs _ := rfl
  isFinite_of_abs_le _ _ := rfl
  isNaN_div _ _ := rfl

instance : @StickyScalar ℚ instScalarRat :=
  Scalar.exact_rat ▸ (inferInstance : @StickyScalar ℚ (.exact ℚ))

namespace IeeeScalar

variable [IeeeScalar T] {a b : T}

theorem isNaN_of_sub (h : Scalar.isNaN (a - b) = false) :
    Scalar.isNaN a = false ∧ Scalar.isNaN b = false := by
  rw [isNaN, sub] at h
  rw [isNaN, isNaN]
  exact Ieee.isNaN_of_sub h

theorem isNaN_of_div (h : Scalar.isNaN (a / b) = false) :
    Scalar.isNaN a = false ∧ Scalar.isNaN b = false := by
  rw [isNaN, div] at h
  rw [isNaN, isNaN]
  exact Ieee.isNaN_of_div h

end IeeeScalar

instance [IeeeScalar T] : StickyScalar T where
  isNaN_of_add := IeeeScalar.isNaN_of_add
  isNaN_of_sub := IeeeScalar.isNaN_of_sub
  isNaN_of_mul := IeeeScalar.isNaN_of_mul
  isNaN_of_div := IeeeScalar.isNaN_of_div
  isNaN_abs := IeeeScalar.isNaN_abs
  isNaN_of_le := IeeeScalar.isNaN_of_le
  one_le_one := IeeeScalar.one_le_one
  isFinite_abs := IeeeScalar.isFinite_abs
  isFinite_of_abs_le := IeeeScalar.isFinite_of_abs_le
  isNaN_div ha hb := IeeeScalar.isNaN_of_isFinite (IeeeScalar.isFinite_div ha hb)

/-- A maximum with one is at least one, also if the other value is no number. -/
theorem Scalar.one_le_max [StickyScalar T] (b : T) : Scalar.le 1 (Scalar.max 1 b) = true := by
  have hone : Scalar.le (1 : T) 1 = true := StickyScalar.one_le_one
  unfold Scalar.max
  rw [(StickyScalar.isNaN_of_le hone).1, if_neg (by decide)]
  split_ifs with hnan hle
  · exact hone
  · exact hle
  · exact hone

/-! ## Properties that operands have -/

/-- A property that the operands of a sum or of a product have if the result has it. -/
structure Inherited (P : T → Prop) : Prop where
  add {a b : T} : P (a + b) → P a ∧ P b
  mul {a b : T} : P (a * b) → P a ∧ P b

theorem inherited_number [StickyScalar T] : Inherited fun a : T => Scalar.isNaN a = false :=
  ⟨StickyScalar.isNaN_of_add, StickyScalar.isNaN_of_mul⟩

theorem inherited_finite [IeeeScalar T] : Inherited fun a : T => Scalar.isFinite a = true :=
  ⟨IeeeScalar.isFinite_of_add, IeeeScalar.isFinite_of_mul⟩

theorem Vec.forall_of_zipWith {α : Type} {P : α → Prop} {f : α → α → α}
    (hf : ∀ u v, P (f u v) → P u ∧ P v) {x y : List α} (hlength : y.length = x.length) (h : ∀ c ∈ x.zipWith f y, P c) :
    (∀ a ∈ x, P a) ∧ ∀ b ∈ y, P b := by
  induction x generalizing y with
  | nil =>
    rw [List.length_eq_zero_iff.mp hlength]
    exact ⟨by simp, by simp⟩
  | cons u x ih =>
    cases y with
    | nil => cases hlength
    | cons v y =>
      obtain ⟨hfirst, hrest⟩ := List.forall_mem_cons.mp h
      obtain ⟨hu, hv⟩ := hf u v hfirst
      obtain ⟨hx, hy⟩ := ih (Nat.succ.inj hlength) hrest
      exact ⟨List.forall_mem_cons.mpr ⟨hu, hx⟩, List.forall_mem_cons.mpr ⟨hv, hy⟩⟩

theorem Inherited.combine {P : T → Prop} (hP : Inherited P) {a b : T} {x y z : List T}
    (h : Vec.combine a x b y = .ok z) (hz : ∀ c ∈ z, P c) : (∀ u ∈ x, P u) ∧ ∀ v ∈ y, P v := by
  obtain ⟨_, hlength, h⟩ := Checked.bind_eq_ok.mp h
  cases h
  refine Vec.forall_of_zipWith (fun u v huv => ?_) (demand_eq_ok.mp hlength) hz
  obtain ⟨hu, hv⟩ := hP.add huv
  exact ⟨(hP.mul hu).2, (hP.mul hv).2⟩

/-! ## Vectors -/

def Vec.Numbers (v : List T) : Prop := ∀ a ∈ v, Scalar.isNaN a = false

theorem Vec.Numbers.not_isNaN {v : List T} {a : T} (hv : Vec.Numbers v) (ha : a ∈ v) :
    ¬Scalar.isNaN a = true := by
  rw [hv a ha]
  exact Bool.false_ne_true

theorem Vec.numbers_of_normFrom (v : List T) {bound : T} (h : Scalar.isNaN (Vec.normFrom bound v) = false) :
    Vec.Numbers v := by
  induction v generalizing bound with
  | nil => simp [Vec.Numbers]
  | cons a v ih =>
    unfold Vec.normFrom at h
    by_cases ha : Scalar.isNaN a = true
    · rw [if_pos ha, ha] at h
      cases h
    · rw [if_neg ha] at h
      exact List.forall_mem_cons.mpr ⟨Bool.eq_false_iff.mpr ha, ih h⟩

/-- A norm that is a number is that of numbers. -/
theorem Vec.numbers_of_norm {v : List T} (h : Scalar.isNaN (Vec.norm v) = false) : Vec.Numbers v :=
  Vec.numbers_of_normFrom v h

end QpReferee

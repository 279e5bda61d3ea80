import QpReferee.Proofs.Numbers

/-!
# Vectors of a binary format

A norm starts at zero and grows, so it is finite only if no entry was infinite; an entry that is no number
ends it as it is. So a norm is finite exactly if every entry is.

* `Scalar.isFinite_max` : of two numbers that are not below zero the greater is finite if both are.
* `Vec.isFinite_norm` : **a norm is finite if and only if all entries are.**
* `Vec.zero_le_norm` : a norm that is a number is not below zero.
-/

namespace QpReferee

section

variable {T : Type} [Scalar T]

theorem Scalar.isFinite_max_of {a b : T} (ha : Scalar.isFinite a = true) (hb : Scalar.isFinite b = true) :
    Scalar.isFinite (Scalar.max a b) = true := by
  unfold Scalar.max
  split_ifs <;> assumption

theorem Vec.isFinite_cons (a : T) (v : List T) :
    Vec.isFinite (a :: v) = true ↔ Scalar.isFinite a = true ∧ Vec.isFinite v = true := by
  rw [Vec.isFinite, List.all_cons, Bool.and_eq_true, Vec.isFinite]

theorem Vec.normFrom_cons {a : T} (ha : Scalar.isNaN a = false) (bound : T) (v : List T) :
    Vec.normFrom bound (a :: v) = Vec.normFrom (Scalar.max bound (Scalar.abs a)) v := by
  rw [Vec.normFrom, ha, if_neg (by decide)]

theorem Vec.isFinite_iff {v : List T} : Vec.isFinite v = true ↔ ∀ a ∈ v, Scalar.isFinite a = true := by
  rw [Vec.isFinite, List.all_eq_true]

end

section

variable {T : Type} [Scalar T] [OrderedScalar T]

theorem Scalar.max_cases {a b : T} (ha : Scalar.isNaN a = false) (hb : Scalar.isNaN b = false) :
    Scalar.max a b = b ∧ Scalar.le a b = true ∨ Scalar.max a b = a ∧ Scalar.le b a = true := by
  unfold Scalar.max
  rw [ha, hb, if_neg (by decide), if_neg (by decide)]
  by_cases hle : Scalar.le a b = true
  · rw [if_pos hle]
    exact .inl ⟨rfl, hle⟩
  · rw [if_neg hle]
    exact .inr ⟨rfl, (OrderedScalar.le_total ha hb).resolve_left hle⟩

theorem Scalar.le_self {a : T} (ha : Scalar.isNaN a = false) : Scalar.le a a = true :=
  (OrderedScalar.le_total ha ha).elim id id

theorem Scalar.le_max_left {a b : T} (ha : Scalar.isNaN a = false) (hb : Scalar.isNaN b = false) :
    Scalar.le a (Scalar.max a b) = true := by
  rcases Scalar.max_cases ha hb with ⟨hmax, hle⟩ | ⟨hmax, -⟩ <;> rw [hmax]
  · exact hle
  · exact Scalar.le_self ha

theorem Scalar.le_max_right {a b : T} (ha : Scalar.isNaN a = false) (hb : Scalar.isNaN b = false) :
    Scalar.le b (Scalar.max a b) = true := by
  rcases Scalar.max_cases ha hb with ⟨hmax, -⟩ | ⟨hmax, hle⟩ <;> rw [hmax]
  · exact Scalar.le_self hb
  · exact hle

theorem Scalar.zero_le_max {a b : T} (ha : Scalar.le 0 a = true) (hb : Scalar.le 0 b = true) :
    Scalar.le 0 (Scalar.max a b) = true := by
  rcases Scalar.max_cases (OrderedScalar.isNaN_of_le ha).2 (OrderedScalar.isNaN_of_le hb).2 with
    ⟨hmax, -⟩ | ⟨hmax, -⟩ <;> rw [hmax] <;> assumption

theorem Scalar.isNaN_abs {a : T} (ha : Scalar.isNaN a = false) : Scalar.isNaN (Scalar.abs a) = false :=
  (OrderedScalar.isNaN_of_le (OrderedScalar.zero_le_abs ha)).2

theorem Vec.le_normFrom {v : List T} {bound : T} (hv : Vec.Numbers v) (hbound : Scalar.isNaN bound = false) :
    Scalar.le bound (Vec.normFrom bound v) = true := by
  induction v generalizing bound with
  | nil => exact Scalar.le_self hbound
  | cons a v ih =>
    obtain ⟨ha, hv⟩ := List.forall_mem_cons.mp hv
    have hgrows := Scalar.le_max_left hbound (Scalar.isNaN_abs ha)
    rw [normFrom_cons ha]
    exact OrderedScalar.le_trans hgrows (ih hv (OrderedScalar.isNaN_of_le hgrows).2)

theorem Vec.zero_le_norm {v : List T} (h : Scalar.isNaN (Vec.norm v) = false) :
    Scalar.le 0 (Vec.norm v) = true :=
  Vec.le_normFrom (Vec.numbers_of_norm h) (OrderedScalar.isNaN_of_le OrderedScalar.zero_le_zero).1

end

variable {T : Type} [Scalar T] [IeeeScalar T]

theorem Scalar.isFinite_max {a b : T} (ha : Scalar.le 0 a = true) (hb : Scalar.le 0 b = true) :
    Scalar.isFinite (Scalar.max a b) = true ↔ Scalar.isFinite a = true ∧ Scalar.isFinite b = true := by
  rcases Scalar.max_cases (IeeeScalar.isNaN_of_le ha).2 (IeeeScalar.isNaN_of_le hb).2 with
    ⟨hmax, hle⟩ | ⟨hmax, hle⟩ <;> rw [hmax]
  · exact ⟨fun h => ⟨IeeeScalar.isFinite_of_le ha hle h, h⟩, fun h => h.2⟩
  · exact ⟨fun h => ⟨h, IeeeScalar.isFinite_of_le hb hle h⟩, fun h => h.1⟩

namespace Vec

theorem isFinite_normFrom (v : List T) {bound : T} (hbound : Scalar.le 0 bound = true) :
    Scalar.isFinite (normFrom bound v) = true ↔ Scalar.isFinite bound = true ∧ isFinite v = true := by
  -- the bound of the norm stays above zero, where the maximum is finite only if both numbers are
  induction v generalizing bound with
  | nil => exact ⟨fun h => ⟨h, rfl⟩, fun h => h.1⟩
  | cons a v ih =>
    unfold normFrom
    rw [isFinite_cons]
    by_cases ha : Scalar.isNaN a = true
    · rw [if_pos ha]
      constructor
      · intro h
        rw [IeeeScalar.isNaN_of_isFinite h] at ha
        cases ha
      · rintro ⟨-, h, -⟩
        exact h
    · have habs := IeeeScalar.zero_le_abs (Bool.eq_false_iff.mpr ha)
      rw [if_neg ha, ih (Scalar.zero_le_max hbound habs), Scalar.isFinite_max hbound habs,
        IeeeScalar.isFinite_abs, and_assoc]

/-- **A norm is finite if and only if all entries are.** -/
theorem isFinite_norm (v : List T) : Scalar.isFinite (norm v) = true ↔ isFinite v = true := by
  rw [norm, isFinite_normFrom v IeeeScalar.zero_le_zero, and_iff_right IeeeScalar.isFinite_zero]

end Vec

end QpReferee

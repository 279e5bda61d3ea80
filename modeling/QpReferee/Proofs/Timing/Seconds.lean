import QpReferee.Proofs.Ieee.Doubles
import QpReferee.Timing.Duration

/-!
# Durations in seconds

The whole seconds of a duration are a double, and so is the rest in nanoseconds. The rest is divided and added, with
one rounding each. So a duration in seconds is the exact number up to a small part of it, and a longer duration has no
fewer seconds.

* `Duration.exactSeconds` : the exact number of seconds.
* `Duration.value_seconds` : the two roundings.
* `Duration.seconds_within` : **the exact number, up to one part in `2 ^ 51`.**
* `Duration.seconds_mono` : **a longer duration has no fewer seconds.**
* `Duration.isNaN_seconds` : the number of seconds is a number, however long the duration.
-/

namespace QpReferee

open Ieee

namespace Duration

def exactSeconds (d : Duration) : ℚ := d.nanoseconds / 10 ^ 9

def wholeSeconds (d : Duration) : ℕ := d.nanoseconds / Nat.pow 10 9

def restSeconds (d : Duration) : ℚ := (d.nanoseconds % Nat.pow 10 9 : ℕ) / 10 ^ 9

/-- The whole seconds are few enough for a double. -/
def IsModerate (d : Duration) : Prop := d.wholeSeconds < 2 ^ 53

variable (d : Duration)

theorem exactSeconds_eq : d.exactSeconds = d.wholeSeconds + d.restSeconds := by
  have hdiv : (d.nanoseconds : ℚ) =
      10 ^ 9 * (d.nanoseconds / Nat.pow 10 9 : ℕ) + (d.nanoseconds % Nat.pow 10 9 : ℕ) := by
    exact_mod_cast (Nat.div_add_mod d.nanoseconds (10 ^ 9)).symm
  unfold exactSeconds wholeSeconds restSeconds
  rw [hdiv]
  field_simp

theorem restSeconds_nonneg : 0 ≤ d.restSeconds := by
  unfold restSeconds
  positivity

theorem restSeconds_lt_one : d.restSeconds < 1 := by
  have hlt : d.nanoseconds % Nat.pow 10 9 < 10 ^ 9 := Nat.mod_lt _ (by decide)
  unfold restSeconds
  rw [div_lt_one (by positivity)]
  exact_mod_cast hlt

def roundedRest : ℚ := roundedValue .binary64 d.restSeconds

theorem roundedRest_nonneg : 0 ≤ d.roundedRest := by
  unfold roundedRest roundedValue
  positivity

theorem roundedRest_le_one : d.roundedRest ≤ 1 := by
  unfold roundedRest
  rcases d.restSeconds_nonneg.lt_or_eq with hpos | hzero
  · have hone := Double.roundedValue_natCast (n := 1) (by decide)
    rw [Nat.cast_one] at hone
    exact (roundedValue_mono hpos d.restSeconds_lt_one.le).trans hone.le
  · rw [← hzero, roundedValue_zero]
    exact zero_le_one

theorem restSeconds_eq_zero_or_le : d.restSeconds = 0 ∨ 1 / 2 ^ 30 ≤ d.restSeconds := by
  unfold restSeconds
  rcases Nat.eq_zero_or_pos (d.nanoseconds % Nat.pow 10 9) with hzero | hpos
  · rw [hzero]
    exact .inl (by simp)
  · right
    have hone : (1 : ℚ) ≤ (d.nanoseconds % Nat.pow 10 9 : ℕ) := by exact_mod_cast hpos
    rw [div_le_div_iff₀ (by positivity) (by positivity)]
    linarith

theorem abs_roundedRest_sub_le : |d.roundedRest - d.restSeconds| ≤ d.restSeconds / 2 ^ 53 := by
  unfold roundedRest
  rcases d.restSeconds_eq_zero_or_le with hzero | hle
  · rw [hzero, roundedValue_zero]
    norm_num
  · exact Double.abs_roundedValue_sub_le (le_trans (by norm_num) hle)

theorem roundedRest_mono {d d' : Duration} (h : d.restSeconds ≤ d'.restSeconds) :
    d.roundedRest ≤ d'.roundedRest := by
  rcases d.restSeconds_nonneg.lt_or_eq with hpos | hzero
  · exact roundedValue_mono hpos h
  · rw [roundedRest, ← hzero, roundedValue_zero]
    exact d'.roundedRest_nonneg

/-! ## Two roundings -/

theorem value_rest :
    (doubleNearest (d.nanoseconds % Nat.pow 10 9) 1 / doubleNearest (Nat.pow 10 9) 1).isFinite = true ∧
      Double.value (doubleNearest (d.nanoseconds % Nat.pow 10 9) 1 / doubleNearest (Nat.pow 10 9) 1) =
        d.roundedRest := by
  have hlt : d.nanoseconds % Nat.pow 10 9 < Nat.pow 10 9 := Nat.mod_lt _ (by decide)
  have hnano : (10 : ℚ) ^ 9 = (Nat.pow 10 9 : ℕ) := by norm_num
  unfold roundedRest restSeconds
  rw [hnano]
  exact Double.value_quotient (hlt.trans (by decide)) (by decide) hlt.le (by decide)

/-- **Seconds are rounded twice**: the rest, and the sum of it and the whole seconds. -/
theorem unsigned_seconds (h : d.IsModerate) : unsigned (Double.word d.seconds) =
    nearest .binary64 (d.wholeSeconds + d.roundedRest) := by
  obtain ⟨hfinite, hrest⟩ := d.value_rest
  have hwhole : Double.value (doubleNearest d.wholeSeconds 1) = d.wholeSeconds := Double.value_nearest_natCast h
  have hsum := Double.unsigned_word_add (Double.isFinite_nearest (Nat.lt_trans h (by decide))) hfinite
    ((Nat.cast_nonneg _).trans_eq hwhole.symm) (d.roundedRest_nonneg.trans_eq hrest.symm)
  rw [hwhole, hrest] at hsum
  exact hsum

theorem value_seconds (h : d.IsModerate) : d.seconds.isFinite = true ∧
    Double.value d.seconds = roundedValue .binary64 (d.wholeSeconds + d.roundedRest) := by
  have hwhole : (d.wholeSeconds : ℚ) < 2 ^ 53 := by exact_mod_cast h
  have hnonneg := d.roundedRest_nonneg
  exact Double.value_of_unsigned (d.unsigned_seconds h) (by positivity)
    (by linarith [le_largest, d.roundedRest_le_one])

/-- The sum is rounded by a small part of it: it is zero, or not too small for a double. -/
theorem abs_roundedSum_sub_le :
    |roundedValue .binary64 (d.wholeSeconds + d.roundedRest) - (d.wholeSeconds + d.roundedRest)| ≤
      (d.wholeSeconds + d.roundedRest) / 2 ^ 53 := by
  rcases Nat.eq_zero_or_pos d.wholeSeconds with hzero | hpos
  · rw [hzero, Nat.cast_zero, zero_add]
    rcases d.restSeconds_eq_zero_or_le with hnone | hle
    · have hnothing : d.roundedRest = 0 := by rw [roundedRest, hnone, roundedValue_zero]
      rw [hnothing, roundedValue_zero]
      norm_num
    · have hrest := abs_le.mp d.abs_roundedRest_sub_le
      exact Double.abs_roundedValue_sub_le (by linarith)
  · have hone : (1 : ℚ) ≤ d.wholeSeconds := by exact_mod_cast hpos
    exact Double.abs_roundedValue_sub_le (by linarith [d.roundedRest_nonneg])

/-- **The number of seconds is exact up to one part in `2 ^ 51`.** -/
theorem seconds_within (h : d.IsModerate) : d.seconds.isFinite = true ∧
    |Double.value d.seconds - d.exactSeconds| ≤ d.exactSeconds / 2 ^ 51 := by
  obtain ⟨hfinite, hvalue⟩ := d.value_seconds h
  have hrest := abs_le.mp d.abs_roundedRest_sub_le
  have hsum := abs_le.mp d.abs_roundedSum_sub_le
  have hwhole : (0 : ℚ) ≤ d.wholeSeconds := Nat.cast_nonneg _
  have hnonneg := d.restSeconds_nonneg
  refine ⟨hfinite, ?_⟩
  rw [hvalue, d.exactSeconds_eq, abs_le]
  constructor <;> linarith

/-- With more whole seconds the rest does not matter, for it is rounded to one at most. -/
theorem roundedSum_mono {d d' : Duration} (hle : d.nanoseconds ≤ d'.nanoseconds) :
    (d.wholeSeconds : ℚ) + d.roundedRest ≤ d'.wholeSeconds + d'.roundedRest := by
  have hwhole : d.wholeSeconds ≤ d'.wholeSeconds := Nat.div_le_div_right hle
  rcases hwhole.lt_or_eq with hlt | heq
  · have hone : (d.wholeSeconds : ℚ) + 1 ≤ d'.wholeSeconds := by exact_mod_cast hlt
    linarith [d.roundedRest_le_one, d'.roundedRest_nonneg]
  · have hrest : d.nanoseconds % Nat.pow 10 9 ≤ d'.nanoseconds % Nat.pow 10 9 := by
      have hdiv := Nat.div_add_mod d.nanoseconds (Nat.pow 10 9)
      have hdiv' := Nat.div_add_mod d'.nanoseconds (Nat.pow 10 9)
      unfold wholeSeconds at heq
      rw [heq] at hdiv
      omega
    rw [heq]
    refine add_le_add_right (roundedRest_mono ?_) _
    exact div_le_div_of_nonneg_right (by exact_mod_cast hrest) (by positivity)

/-- **A longer duration has no fewer seconds.** -/
theorem seconds_mono {d d' : Duration} (hle : d.nanoseconds ≤ d'.nanoseconds) (h : d'.IsModerate) :
    d.seconds ≤ d'.seconds := by
  have hmoderate : d.IsModerate := (Nat.div_le_div_right hle).trans_lt h
  apply decide_eq_true
  show (Double.word d.seconds).le (Double.word d'.seconds) = true
  rw [← unsigned_le, ← le_unsigned, d.unsigned_seconds hmoderate, d'.unsigned_seconds h]
  exact nearest_le_nearest (by decide) (add_nonneg (Nat.cast_nonneg _) d.roundedRest_nonneg) (roundedSum_mono hle)

/-- The whole seconds of any duration may be rounded to infinity, but the rest is finite. -/
theorem isNaN_seconds : d.seconds.isNaN = false := by
  have hwhole := Double.isNaN_nearest (d.nanoseconds / Nat.pow 10 9) 1
  obtain ⟨hrest, -⟩ := d.value_rest
  rw [← Bool.not_eq_true]
  intro hnan
  rcases Double.isNaN_add_iff.mp hnan with h | h | ⟨-, h, -⟩
  · cases h.symm.trans hwhole
  · cases h.symm.trans (Double.isNaN_of_isFinite hrest)
  · cases h.symm.trans (Double.isInf_of_isFinite hrest)

end Duration

end QpReferee

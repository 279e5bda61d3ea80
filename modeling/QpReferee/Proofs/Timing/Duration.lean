import Mathlib.Data.List.TakeWhile
import QpReferee.Proofs.JsonText.Written
import QpReferee.Timing.Duration

/-!
# Written durations

A duration is written without loss. The digits before the point are the whole units, those behind it are the rest,
of which only zeros at the end are left out, and the sign tells the unit. So no two durations have one text, whatever
the units they are written in.

* `Duration.ofText?` : the duration that a text writes.
* `Duration.ofText?_text` : **a written duration is read back.**
-/

namespace QpReferee

open JsonText

/-! ## Zeros at the end -/

/-- Digits without the zeros at their end. -/
def withoutZeros (ds : List Char) : List Char := (ds.reverse.dropWhile (· == '0')).reverse

theorem exists_zeros (ds : List Char) : ∃ k, ds = withoutZeros ds ++ List.replicate k '0' := by
  refine ⟨(ds.reverse.takeWhile (· == '0')).length, ?_⟩
  have hzeros : ds.reverse.takeWhile (· == '0') =
      List.replicate (ds.reverse.takeWhile (· == '0')).length '0' :=
    List.eq_replicate_iff.mpr ⟨rfl, fun c hc => beq_iff_eq.mp (List.mem_takeWhile_imp hc :)⟩
  rw [withoutZeros, ← List.reverse_replicate, ← hzeros, ← List.reverse_append, List.takeWhile_append_dropWhile,
    List.reverse_reverse]

theorem digitsValue_zeros (k : ℕ) : digitsValue (List.replicate k '0') = 0 := by
  induction k with
  | zero => exact digitsValue_nil
  | succ k ih => rw [List.replicate_succ', digitsValue_concat, ih]; rfl

theorem digitsValue_withoutZeros (ds : List Char) :
    digitsValue (withoutZeros ds) * 10 ^ (ds.length - (withoutZeros ds).length) = digitsValue ds := by
  obtain ⟨k, hk⟩ := exists_zeros ds
  have hlength : ds.length - (withoutZeros ds).length = k := by
    have hsum := congrArg List.length hk
    rw [List.length_append, List.length_replicate] at hsum
    omega
  conv_rhs => rw [hk, digitsValue_append, digitsValue_zeros, List.length_replicate, Nat.add_zero]
  rw [hlength]

theorem mem_of_mem_withoutZeros {ds : List Char} {c : Char} (h : c ∈ withoutZeros ds) : c ∈ ds := by
  obtain ⟨k, hk⟩ := exists_zeros ds
  rw [hk]
  exact List.mem_append_left _ h

theorem length_withoutZeros_le (ds : List Char) : (withoutZeros ds).length ≤ ds.length := by
  obtain ⟨k, hk⟩ := exists_zeros ds
  conv_rhs => rw [hk, List.length_append]
  exact Nat.le_add_right _ _

namespace Duration

/-! ## Reading -/

/-- The duration that a text writes: a decimal number, and the sign of a unit in which it counts nanoseconds. -/
def ofText? (text : String) : Option Duration :=
  (scanDigits .malformed text.toList).toOption.bind fun whole =>
    (scanFraction .malformed whole.2).toOption.bind fun fraction =>
      (scales.find? fun scale => scale.sign.toList == fraction.2).bind fun scale =>
        if fraction.1.length ≤ scale.places then
          some ⟨digitsValue whole.1 * 10 ^ scale.places +
            digitsValue fraction.1 * 10 ^ (scale.places - fraction.1.length)⟩
        else none

def fractionDigits (places n : ℕ) : List Char := withoutZeros (digitsOf places (n % 10 ^ places) [])

variable {places n : ℕ} {scale : Scale} {c : Char}

theorem toList_textIn : (textIn n scale).toList = decimalText (n / 10 ^ scale.places) ++
    (JsonText.fractionText (fractionDigits scale.places n) ++ scale.sign.toList) := by
  rw [textIn, String.toList_append, String.toList_ofList, List.append_assoc]
  congr 2
  unfold fractionText JsonText.fractionText
  exact if_congr List.isEmpty_iff rfl rfl

theorem isDigit_of_mem_fractionDigits (h : c ∈ fractionDigits places n) : c.isDigit = true :=
  isDigit_of_mem_digitsOf (mem_of_mem_withoutZeros h)

theorem length_fractionDigits_le : (fractionDigits places n).length ≤ places :=
  (length_withoutZeros_le _).trans_eq (length_digitsOf _ _)

theorem digitsValue_fractionDigits :
    digitsValue (fractionDigits places n) * 10 ^ (places - (fractionDigits places n).length) = n % 10 ^ places := by
  have hvalue := digitsValue_withoutZeros (digitsOf places (n % 10 ^ places) [])
  rw [length_digitsOf, digitsValue_digitsOf, Nat.mod_mod] at hvalue
  exact hvalue

/-- No sign starts like a number goes on, and no two units have one sign. -/
theorem sign_of_mem (h : scale ∈ scales) : NoDigit scale.sign.toList ∧ (∀ s, scale.sign.toList ≠ '.' :: s) ∧
    ' ' ∉ scale.sign.toList ∧ scales.find? (fun other => other.sign.toList == scale.sign.toList) = some scale := by
  simp only [scales, List.mem_cons, List.not_mem_nil, or_false] at h
  rcases h with rfl | rfl | rfl | rfl <;>
    exact ⟨noDigit_cons (by decide), fun s hs => absurd (List.cons.inj hs).1 (by decide), by decide, rfl⟩

theorem ofText?_textIn (h : scale ∈ scales) : ofText? (textIn n scale) = some ⟨n⟩ := by
  obtain ⟨hdigit, hpoint, -, hfind⟩ := sign_of_mem h
  have hwhole := @scanDigits_append .malformed _ _ (decimalText_ne_nil (n / 10 ^ scale.places))
    (fun c hc => isDigit_of_mem_decimalText hc) (hdigit.fractionText_append (fractionDigits scale.places n))
  have hfraction := @scanFraction_append .malformed (fractionDigits scale.places n) _
    (fun c hc => isDigit_of_mem_fractionDigits hc) hdigit hpoint
  unfold ofText?
  rw [toList_textIn, hwhole, Except.toOption, Option.bind_some, hfraction, Except.toOption, Option.bind_some, hfind,
    Option.bind_some, if_pos length_fractionDigits_le, digitsValue_decimalText, digitsValue_fractionDigits,
    Nat.div_add_mod']

theorem exists_text (d : Duration) : ∃ scale ∈ scales, d.text = textIn d.nanoseconds scale := by
  unfold text
  dsimp only
  cases h : scales.find? _ with
  | none => exact ⟨⟨0, "ns"⟩, by simp [scales], rfl⟩
  | some scale => exact ⟨scale, List.mem_of_find?_eq_some h, rfl⟩

/-- **A written duration is read back.** -/
theorem ofText?_text (d : Duration) : ofText? d.text = some d := by
  obtain ⟨scale, hscale, htext⟩ := d.exists_text
  rw [htext, ofText?_textIn hscale]

example : text ⟨1500000⟩ = "1.5ms" ∧ ofText? "1.5ms" = some ⟨1500000⟩ := by decide +kernel

theorem blank_notMem_text (d : Duration) : ' ' ∉ d.text.toList := by
  obtain ⟨scale, hscale, htext⟩ := d.exists_text
  obtain ⟨-, -, hsign, -⟩ := sign_of_mem hscale
  have hdigit : ¬(' ').isDigit = true := by decide
  have hfraction : ' ' ∉ JsonText.fractionText (fractionDigits scale.places d.nanoseconds) := by
    intro hmem
    rcases mem_fractionText hmem with hpoint | hmem
    · exact absurd hpoint (by decide)
    · exact hdigit (isDigit_of_mem_fractionDigits hmem)
  rw [htext, toList_textIn, List.mem_append, List.mem_append, not_or, not_or]
  exact ⟨fun hmem => hdigit (isDigit_of_mem_decimalText hmem), hfraction, hsign⟩

end Duration

end QpReferee

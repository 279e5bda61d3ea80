import Mathlib
import QpReferee.Proofs.Ieee.Doubles
import QpReferee.Proofs.JsonText.Written

/-!
# Double precision numbers are read back as written

A finite double precision number is its bits, its bits are a sign and a magnitude, and the text of the
magnitude is read back. Every other number is written as `null`, which is read as no number.

* `readFloat_writeNumber` : **a finite number comes back with the same bits.**
* `writeNumber_of_not_finite` : every other number is written as if it were missing.
-/

namespace QpReferee

theorem isFinite_iff_magnitude (x : Float) :
    x.isFinite = true ↔
      x.toBits.toNat % BinaryFormat.binary64.signBit < BinaryFormat.binary64.infinity :=
  isFinite_word_iff x.toBits

theorem ofBits_sign_add_magnitude (x : Float) :
    Float.ofBits (UInt64.ofNat ((if BinaryFormat.binary64.signBit ≤ x.toBits.toNat then
      BinaryFormat.binary64.signBit else 0) + x.toBits.toNat % BinaryFormat.binary64.signBit)) = x := by
  have hlt := x.toBits.toNat_lt
  have hsign : BinaryFormat.binary64.signBit = 2 ^ 63 := rfl
  have hbits : (if BinaryFormat.binary64.signBit ≤ x.toBits.toNat then BinaryFormat.binary64.signBit
      else 0) + x.toBits.toNat % BinaryFormat.binary64.signBit = x.toBits.toNat := by
    rw [hsign]
    split_ifs <;> omega
  rw [hbits, UInt64.ofNat_toNat, Float.ofBits_toBits]

namespace JsonText

theorem writeNumber_of_finite {x : Float} (h : x.isFinite = true) :
    writeNumber x = (if BinaryFormat.binary64.signBit ≤ x.toBits.toNat then ['-'] else []) ++
      jsonStyle.writeFinite .binary64 (x.toBits.toNat % BinaryFormat.binary64.signBit) := by
  have hlt := (isFinite_iff_magnitude x).mp h
  change jsonStyle.write .binary64 x.toBits.toNat = _
  unfold NumberStyle.write
  dsimp only
  rw [if_neg (Nat.not_lt.mpr hlt.le), if_neg hlt.ne]
  by_cases hnegative : BinaryFormat.binary64.signBit ≤ x.toBits.toNat
  · rw [if_pos hnegative, if_pos hnegative]
    rfl
  · rw [if_neg hnegative, if_neg hnegative]
    rfl

theorem writeNumber_of_not_finite {x : Float} (h : x.isFinite = false) :
    writeNumber x = ['n', 'u', 'l', 'l'] := by
  have hle : ¬x.toBits.toNat % BinaryFormat.binary64.signBit < BinaryFormat.binary64.infinity := by
    rw [← isFinite_iff_magnitude, h]
    decide
  change jsonStyle.write .binary64 x.toBits.toNat = _
  unfold NumberStyle.write
  dsimp only
  by_cases hnan : BinaryFormat.binary64.infinity < x.toBits.toNat % BinaryFormat.binary64.signBit
  · rw [if_pos hnan]
    rfl
  · rw [if_neg hnan, if_pos (by omega)]
    show "null".toList = _
    rfl

theorem skipBlank_cons {c : Char} (hc : isBlank c = false) (s : List Char) : skipBlank (c :: s) = c :: s :=
  List.dropWhile_cons_of_neg (by rw [hc]; decide)

theorem isBlank_of_isDigit {c : Char} (h : c.isDigit = true) : isBlank c = false := by
  have hrange := toNat_of_isDigit h
  unfold isBlank
  simp only [Bool.or_eq_false_iff, beq_eq_false_iff_ne]
  refine ⟨⟨⟨?_, ?_⟩, ?_⟩, ?_⟩ <;> rintro rfl <;> exact absurd hrange (by decide)

theorem isBlank_of_startsNumber {c : Char} (h : startsNumber c = true) : isBlank c = false := by
  rw [startsNumber, Bool.or_eq_true, beq_iff_eq] at h
  rcases h with rfl | hdigit
  · decide
  · exact isBlank_of_isDigit hdigit

theorem ne_of_startsNumber {c d : Char} (hc : startsNumber c = true) (hd : startsNumber d = false) : c ≠ d := by
  rintro rfl
  exact Bool.false_ne_true (hd.symm.trans hc)

/-! ## Finite numbers -/

variable {rest : List Char}

theorem readNumber_cons {c : Char} (hc : startsNumber c = true) (s : List Char) :
    readNumber (c :: s) = readNumeral (c :: s) := by
  unfold readNumber
  rw [skipBlank_cons (isBlank_of_startsNumber hc)]
  exact if_pos hc

theorem readFloat_text (w : NumberText) (hrest : EndsNumber rest) :
    readFloat (w.text ++ rest) = if w.numeral.magnitude = BinaryFormat.binary64.infinity then .error .malformed
      else .ok (w.numeral.toFloat, rest) := by
  obtain ⟨c, s, hs, hstart⟩ := w.exists_cons
  have hscan : scanNumeral .truncated (w.text ++ rest) = _ := w.scanNumeral_text hrest
  rw [hs, List.cons_append] at hscan
  rw [hs, List.cons_append, readFloat, readNumber_cons hstart, readNumeral, hscan]
  dsimp only
  by_cases hrange : w.numeral.magnitude = BinaryFormat.binary64.infinity
  · rw [if_pos hrange, if_pos hrange]
  · rw [if_neg hrange, if_neg hrange]

/-- A finite number is written as a moderate number in range, which rounds to it. -/
theorem exists_writeNumber {x : Float} (h : x.isFinite = true) :
    ∃ w : NumberText, w.text = writeNumber x ∧ w.Moderate ∧
      w.numeral.magnitude ≠ BinaryFormat.binary64.infinity ∧ w.numeral.toFloat = x := by
  have hlt := (isFinite_iff_magnitude x).mp h
  obtain ⟨w, htext, hmoderate, hmagnitude⟩ := exists_writeFinite hlt
  rw [← w.magnitude_numeral (decide (BinaryFormat.binary64.signBit ≤ x.toBits.toNat))] at hmagnitude
  refine ⟨⟨w, decide (BinaryFormat.binary64.signBit ≤ x.toBits.toNat)⟩, ?_, hmoderate, ?_, ?_⟩
  · rw [writeNumber_of_finite h, NumberText.text, htext]
    simp only [decide_eq_true_eq]
  · rw [NumberText.numeral, hmagnitude]
    exact hlt.ne
  · rw [NumberText.numeral, Numeral.toFloat, hmagnitude]
    simp only [UnsignedText.numeral, decide_eq_true_eq]
    exact ofBits_sign_add_magnitude x

theorem readFloat_writeNumber {x : Float} (h : x.isFinite = true) (hrest : EndsNumber rest) :
    readFloat (writeNumber x ++ rest) = .ok (x, rest) := by
  obtain ⟨w, htext, -, hrange, hfloat⟩ := exists_writeNumber h
  rw [← htext, readFloat_text w hrest, if_neg hrange, hfloat]

/-! ## Values that may be missing -/

theorem readOptional_some {α : Type} {read : List Char → Read α} {c : Char} {s : List Char} {a : α}
    (hblank : isBlank c = false) (hn : c ≠ 'n') (h : read (c :: s) = .ok (a, rest)) :
    readOptional read (c :: s) = .ok (some a, rest) := by
  unfold readOptional
  rw [skipBlank_cons hblank]
  split
  · next heq => exact absurd (List.cons.inj heq).1 hn
  · rw [h]

end JsonText

end QpReferee

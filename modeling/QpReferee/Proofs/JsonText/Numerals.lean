import QpReferee.JsonText.Value
import QpReferee.Proofs.Decimal.Digits

/-!
# Numbers as they are written

A number in a text is cut into parts: a sign, digits before the point, digits after it, and an exponent. What
is cut like this is scanned whole, whatever follows it that cannot belong to a number.

* `Numeral.magnitude_eq` : a numeral rounds as the decimal number that it writes.
* `UnsignedText`, `NumberText` : numbers by their parts.
* `NumberText.scanNumeral_text` : **a number is scanned whole, part by part.**
-/

namespace QpReferee.JsonText

/-! ## Numerals as decimals -/

/-- The decimal number that a numeral writes. -/
def Numeral.decimal (n : Numeral) : Decimal := ⟨digitsValue n.digits, n.exponent - n.places⟩

theorem Numeral.magnitude_eq {n : Numeral} (h : ∀ c ∈ n.digits, c.isDigit = true) :
    n.magnitude = n.decimal.magnitude .binary64 := by
  unfold Numeral.magnitude Decimal.magnitude
  have hlead : n.lead = n.decimal.lead := by
    unfold Numeral.lead Decimal.lead Numeral.decimal
    rw [length_dropWhile_zero h]
    dsimp only
    omega
  rw [hlead]
  rfl

/-! ## The parts of a number -/

/-- A text that does not go on with a digit. -/
def NoDigit (s : List Char) : Prop := ∀ c s', s = c :: s' → c.isDigit = false

/-- A text that does not go on with anything that belongs to a number. -/
def EndsNumber (s : List Char) : Prop :=
  ∀ c s', s = c :: s' → c.isDigit = false ∧ c ≠ '.' ∧ isExponentMark c = false

theorem EndsNumber.noDigit {s : List Char} (h : EndsNumber s) : NoDigit s := fun c s' hs => (h c s' hs).1

theorem endsNumber_cons {c : Char} {s : List Char}
    (h : c.isDigit = false ∧ c ≠ '.' ∧ isExponentMark c = false) : EndsNumber (c :: s) := by
  rintro d s' hs
  cases hs
  exact h

theorem noDigit_cons {c : Char} {s : List Char} (h : c.isDigit = false) : NoDigit (c :: s) := by
  rintro d s' hs
  cases hs
  exact h

variable {atEnd : Error} {ds fraction rest : List Char}

theorem scanDigits_append (hne : ds ≠ []) (hds : ∀ c ∈ ds, c.isDigit = true) (hrest : NoDigit rest) :
    scanDigits atEnd (ds ++ rest) = .ok (ds, rest) := by
  have hstart : startsWithDigit (ds ++ rest) = true := by
    obtain ⟨c, ds, rfl⟩ := List.exists_cons_of_ne_nil hne
    exact hds c List.mem_cons_self
  have htake : rest.takeWhile Char.isDigit = [] ∧ rest.dropWhile Char.isDigit = rest := by
    cases rest with
    | nil => exact ⟨rfl, rfl⟩
    | cons c rest =>
      have hc : ¬c.isDigit = true := by rw [hrest c rest rfl]; decide
      exact ⟨List.takeWhile_cons_of_neg hc, List.dropWhile_cons_of_neg hc⟩
  rw [scanDigits, if_pos hstart, List.takeWhile_append_of_pos hds, List.dropWhile_append_of_pos hds,
    htake.1, htake.2, List.append_nil]

/-- Digits that may stand before the point: a zero alone, or digits of which the first is not zero. -/
structure IsWhole (ds : List Char) : Prop where
  isDigit : ∀ c ∈ ds, c.isDigit = true
  leading : ds = ['0'] ∨ ∃ c cs, ds = c :: cs ∧ c ≠ '0'

theorem isWhole_zero : IsWhole ['0'] := by
  refine ⟨fun c hc => ?_, .inl rfl⟩
  rw [List.mem_singleton.mp hc]
  decide

theorem IsWhole.exists_cons (h : IsWhole ds) : ∃ c cs, ds = c :: cs ∧ c.isDigit = true := by
  obtain ⟨c, cs, rfl⟩ : ∃ c cs, ds = c :: cs := by
    rcases h.leading with hzero | ⟨c, cs, hcs, -⟩
    · exact ⟨'0', [], hzero⟩
    · exact ⟨c, cs, hcs⟩
  exact ⟨c, cs, rfl, h.isDigit c List.mem_cons_self⟩

theorem scanWhole_append (h : IsWhole ds) (hrest : NoDigit rest) :
    scanWhole atEnd (ds ++ rest) = .ok (ds, rest) := by
  rcases h.leading with rfl | ⟨c, cs, rfl, hc⟩
  · have hstart : startsWithDigit rest = false := by
      cases rest with
      | nil => rfl
      | cons c rest => exact hrest c rest rfl
    rw [List.singleton_append, scanWhole, hstart]
    rfl
  · rw [scanWhole]
    · exact scanDigits_append (List.cons_ne_nil _ _) h.isDigit hrest
    · intro s hs
      exact hc (List.cons.inj hs).1

/-- The digits after a point, with the point in front of them if there are any. -/
def fractionText (fraction : List Char) : List Char := if fraction = [] then [] else '.' :: fraction

theorem NoDigit.fractionText_append (h : NoDigit rest) (fraction : List Char) :
    NoDigit (fractionText fraction ++ rest) := by
  unfold fractionText
  split_ifs
  · exact h
  · exact noDigit_cons (by decide)

theorem mem_fractionText {c : Char} (h : c ∈ fractionText fraction) : c = '.' ∨ c ∈ fraction := by
  unfold fractionText at h
  split_ifs at h
  · cases h
  · exact List.mem_cons.mp h

theorem scanFraction_append (hfraction : ∀ c ∈ fraction, c.isDigit = true) (hdigit : NoDigit rest)
    (hpoint : ∀ s, rest ≠ '.' :: s) :
    scanFraction atEnd (fractionText fraction ++ rest) = .ok (fraction, rest) := by
  unfold fractionText
  split_ifs with hnil
  · subst hnil
    rw [List.nil_append, scanFraction]
    intro s hs
    exact hpoint s hs
  · rw [List.cons_append, scanFraction]
    exact scanDigits_append hnil hfraction hdigit

/-- The text of a sign, which is a minus or a plus. -/
def signText : Option Bool → List Char
  | none => []
  | some true => ['-']
  | some false => ['+']

/-- An exponent as it is written. -/
structure ExponentText where
  mark : Char
  /-- The sign, if there is one: is it a minus? -/
  sign : Option Bool
  digits : List Char
  isMark : isExponentMark mark = true
  ne_nil : digits ≠ []
  isDigit : ∀ c ∈ digits, c.isDigit = true

namespace ExponentText

def text (x : ExponentText) : List Char := x.mark :: (signText x.sign ++ x.digits)

def value (x : ExponentText) : ℤ :=
  if x.sign = some true then -(digitsValue x.digits : ℤ) else digitsValue x.digits

theorem exponentSign_append (sign : Option Bool) {c : Char} (hc : c.isDigit = true) (s : List Char) :
    exponentSign (signText sign ++ c :: s) = (decide (sign = some true), c :: s) := by
  rcases sign with _ | _ | _
  · rw [signText, List.nil_append, exponentSign]
    · rfl
    · rintro s' hs
      rw [(List.cons.inj hs).1] at hc
      exact absurd hc (by decide)
    · rintro s' hs
      rw [(List.cons.inj hs).1] at hc
      exact absurd hc (by decide)
  · rfl
  · rfl

theorem scanExponent_text (x : ExponentText) (hrest : NoDigit rest) :
    scanExponent atEnd (x.text ++ rest) = .ok (some x.value, rest) := by
  obtain ⟨c, ds, hds⟩ := List.exists_cons_of_ne_nil x.ne_nil
  have hsign := exponentSign_append x.sign (x.isDigit c (hds ▸ List.mem_cons_self)) (ds ++ rest)
  rw [← List.cons_append, ← hds, ← List.append_assoc] at hsign
  rw [text, List.cons_append, scanExponent, if_pos x.isMark, hsign]
  dsimp only
  rw [scanDigits_append x.ne_nil x.isDigit hrest, value]
  simp only [decide_eq_true_eq]

end ExponentText

theorem not_isDigit_of_isExponentMark {c : Char} (h : isExponentMark c = true) :
    c.isDigit = false ∧ c ≠ '.' := by
  simp only [isExponentMark, Bool.or_eq_true, beq_iff_eq] at h
  rcases h with rfl | rfl <;> decide

theorem scanExponent_none (hrest : EndsNumber rest) : scanExponent atEnd rest = .ok (none, rest) := by
  cases rest with
  | nil => rfl
  | cons c rest =>
    obtain ⟨-, -, hmark⟩ := hrest c rest rfl
    rw [scanExponent, hmark]
    rfl

/-! ## Whole numbers -/

/-- A number without a sign, as it is written. -/
structure UnsignedText where
  whole : List Char
  fraction : List Char
  exponent : Option ExponentText
  isWhole : IsWhole whole
  isDigit : ∀ c ∈ fraction, c.isDigit = true

namespace UnsignedText

/-- The text of the exponent, if there is one. -/
def exponentText (w : UnsignedText) : List Char := w.exponent.elim [] ExponentText.text

def text (w : UnsignedText) : List Char := w.whole ++ (fractionText w.fraction ++ w.exponentText)

def numeral (w : UnsignedText) (negative : Bool) : Numeral where
  negative := negative
  digits := w.whole ++ w.fraction
  places := w.fraction.length
  exponent := (w.exponent.map ExponentText.value).getD 0
  whole := w.fraction.isEmpty && w.exponent.isNone

/-- The decimal number that is written. -/
def decimal (w : UnsignedText) : Decimal := (w.numeral false).decimal

theorem value_decimal (w : UnsignedText) : w.decimal.value =
    digitsValue (w.whole ++ w.fraction) *
      10 ^ ((w.exponent.map ExponentText.value).getD 0 - w.fraction.length) :=
  rfl

theorem text_of_fraction {w : UnsignedText} (hexponent : w.exponent = none) (hne : w.fraction ≠ []) :
    w.text = w.whole ++ '.' :: w.fraction := by
  rw [text, fractionText, if_neg hne, exponentText, hexponent, Option.elim_none, List.append_nil]

theorem exists_cons (w : UnsignedText) : ∃ c s, w.text = c :: s ∧ c.isDigit = true := by
  obtain ⟨c, cs, hcs, hc⟩ := w.isWhole.exists_cons
  exact ⟨c, cs ++ (fractionText w.fraction ++ w.exponentText), by rw [text, hcs, List.cons_append], hc⟩

theorem magnitude_numeral (w : UnsignedText) (negative : Bool) :
    (w.numeral negative).magnitude = w.decimal.magnitude .binary64 := by
  refine Numeral.magnitude_eq fun c hc => ?_
  rcases List.mem_append.mp hc with hc | hc
  · exact w.isWhole.isDigit c hc
  · exact w.isDigit c hc

theorem scanExponent_exponentText (w : UnsignedText) (hrest : EndsNumber rest) :
    scanExponent atEnd (w.exponentText ++ rest) = .ok (w.exponent.map ExponentText.value, rest) := by
  unfold exponentText
  cases w.exponent with
  | none => exact scanExponent_none hrest
  | some x => exact x.scanExponent_text hrest.noDigit

theorem exponentText_cases (w : UnsignedText) :
    w.exponentText = [] ∨ ∃ c s, w.exponentText = c :: s ∧ isExponentMark c = true := by
  unfold exponentText
  cases w.exponent with
  | none => exact .inl rfl
  | some x => exact .inr ⟨x.mark, _, rfl, x.isMark⟩

theorem scanUnsigned_text (w : UnsignedText) (negative : Bool) (hrest : EndsNumber rest) :
    scanUnsigned atEnd negative (w.text ++ rest) = .ok (w.numeral negative, rest) := by
  have hafter : NoDigit (w.exponentText ++ rest) ∧ ∀ s, w.exponentText ++ rest ≠ '.' :: s := by
    rcases w.exponentText_cases with hnil | ⟨c, s, hs, hmark⟩
    · rw [hnil, List.nil_append]
      exact ⟨hrest.noDigit, fun s hs => (hrest _ s hs).2.1 rfl⟩
    · obtain ⟨hdigit, hpoint⟩ := not_isDigit_of_isExponentMark hmark
      rw [hs, List.cons_append]
      exact ⟨noDigit_cons hdigit, fun s hs => hpoint (List.cons.inj hs).1⟩
  unfold scanUnsigned
  rw [text, List.append_assoc, List.append_assoc, scanWhole_append w.isWhole (hafter.1.fractionText_append _)]
  dsimp only
  rw [scanFraction_append w.isDigit hafter.1 hafter.2]
  dsimp only
  rw [w.scanExponent_exponentText hrest]
  dsimp only [numeral]
  rw [Option.isNone_map]

end UnsignedText

/-- A number as it is written. -/
structure NumberText extends UnsignedText where
  negative : Bool

namespace NumberText

def text (w : NumberText) : List Char := (if w.negative then ['-'] else []) ++ w.toUnsignedText.text

def numeral (w : NumberText) : Numeral := w.toUnsignedText.numeral w.negative

/-- **A number is scanned whole, part by part.** -/
theorem scanNumeral_text (w : NumberText) (hrest : EndsNumber rest) :
    scanNumeral atEnd (w.text ++ rest) = .ok (w.numeral, rest) := by
  have hscan : scanUnsigned atEnd w.negative (w.toUnsignedText.text ++ rest) = _ :=
    w.scanUnsigned_text w.negative hrest
  unfold text numeral
  cases hnegative : w.negative with
  | true =>
    rw [hnegative] at hscan
    exact hscan
  | false =>
    obtain ⟨c, s, hs, hdigit⟩ := w.exists_cons
    rw [hnegative] at hscan
    rw [if_neg (by decide), List.nil_append, scanNumeral]
    · exact hscan
    · rintro s' hs'
      rw [hs, List.cons_append] at hs'
      rw [(List.cons.inj hs').1] at hdigit
      exact absurd hdigit (by decide)

theorem exists_cons (w : NumberText) : ∃ c s, w.text = c :: s ∧ startsNumber c = true := by
  unfold text
  cases w.negative with
  | true => exact ⟨'-', _, rfl, by decide⟩
  | false =>
    obtain ⟨c, s, hs, hdigit⟩ := w.toUnsignedText.exists_cons
    exact ⟨c, s, hs, by rw [startsNumber, hdigit, Bool.or_true]⟩

end NumberText

end QpReferee.JsonText

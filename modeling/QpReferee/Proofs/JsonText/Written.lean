import QpReferee.JsonText.Write
import QpReferee.Proofs.JsonText.Numerals

/-!
# Written magnitudes

The text of a finite magnitude is a number that rounds to the magnitude. Both layouts are cut into the same
parts: digits before the point, digits after it, and an exponent. Neither has many digits before the point,
nor a large exponent.

* `UnsignedText.Moderate` : few digits before the point, and a small exponent.
* `exists_positionalText`, `exists_exponentText` : the two layouts of a decimal number.
* `exists_writeFinite` : **the text of a magnitude is a moderate number that rounds to it.**
-/

namespace QpReferee.JsonText

open NumberStyle

/-- Few digits before the point, and a small exponent. -/
structure UnsignedText.Moderate (w : UnsignedText) : Prop where
  length_whole : w.whole.length ≤ 16
  exponent_lt : ∀ x ∈ w.exponent, digitsValue x.digits < 2050

theorem isDigit_of_mem_decimalText {n : ℕ} {c : Char} (h : c ∈ decimalText n) : c.isDigit = true :=
  isDigit_of_mem_digitsOf h

theorem isWhole_digitsOf {k n : ℕ} (hn : n ≠ 0) (hk : k = digitCount n) : IsWhole (digitsOf k n []) := by
  refine ⟨fun _ => isDigit_of_mem_digitsOf, .inr ?_⟩
  obtain ⟨c, cs, hcs, -, hzero⟩ := digitsOf_leading hn
  exact ⟨c, cs, hk ▸ hcs, hzero⟩

theorem digitsValue_cut {a b n : ℕ} (h : n < 10 ^ (a + b)) :
    digitsValue (digitsOf a (n / 10 ^ b) [] ++ digitsOf b n []) = n := by
  rw [← digitsOf_tail, digitsOf_append, digitsValue_digitsOf, Nat.mod_eq_of_lt h]

theorem digitsOf_ne_nil {k : ℕ} (hk : 0 < k) (n : ℕ) : digitsOf k n [] ≠ [] := by
  rw [← List.length_pos_iff, length_digitsOf]
  exact hk

theorem decimalText_ne_nil (n : ℕ) : decimalText n ≠ [] :=
  digitsOf_ne_nil (Nat.lt_of_lt_of_le Nat.one_pos (Nat.le_max_left _ _)) n

theorem digitCount_mul_pow {n : ℕ} (hn : n ≠ 0) (b : ℕ) : digitCount (n * 10 ^ b) = digitCount n + b := by
  have hcount := digitCount_div_pow (n * 10 ^ b) b
  have hlt : b < digitCount (n * 10 ^ b) := by
    by_contra hle
    have hbound := (lt_pow_digitCount (n * 10 ^ b)).trans_le
      (Nat.pow_le_pow_right (by decide) (Nat.le_of_not_lt hle) : 10 ^ _ ≤ 10 ^ b)
    exact absurd hbound (Nat.not_lt.mpr (Nat.le_mul_of_pos_left _ (Nat.pos_of_ne_zero hn)))
  rw [Nat.mul_div_cancel _ (Nat.pow_pos (by decide))] at hcount
  omega

/-! ## Without an exponent -/

variable {d : Decimal}

theorem exists_wholeText (hd : d.digits ≠ 0) (hexponent : 0 ≤ d.exponent) :
    ∃ w : UnsignedText, w.text = decimalText (d.digits * 10 ^ d.exponent.toNat) ++ ['.', '0'] ∧
      w.decimal.value = d.value ∧ w.exponent = none ∧ (w.whole.length : ℤ) = d.lead := by
  generalize hn : d.digits * 10 ^ d.exponent.toNat = n
  have hne : n ≠ 0 := hn ▸ Nat.mul_ne_zero hd (Nat.pow_pos (by decide)).ne'
  have hcount : max 1 (digitCount n) = digitCount n := Nat.max_eq_right (digitCount_pos hne)
  rw [decimalText, hcount]
  refine ⟨⟨digitsOf (digitCount n) n [], ['0'], none, isWhole_digitsOf hne rfl, isWhole_zero.isDigit⟩,
    rfl, ?_, rfl, ?_⟩
  · have hpow : (10 : ℚ) ^ d.exponent = 10 ^ d.exponent.toNat := by
      rw [← zpow_natCast, Int.toNat_of_nonneg hexponent]
    rw [UnsignedText.value_decimal, Decimal.value]
    dsimp only
    rw [digitsValue_concat, digitsValue_digitsOf, Nat.mod_eq_of_lt (lt_pow_digitCount n), ← hn, hpow]
    push_cast
    norm_num
    ring
  · rw [length_digitsOf, ← hn, digitCount_mul_pow hd, Decimal.lead]
    omega

theorem exists_amongText {places : ℕ} (hexponent : d.exponent = -places) (hpos : 0 < places)
    (hplaces : places < digitCount d.digits) :
    ∃ w : UnsignedText, w.text = digitsOf (digitCount d.digits - places) (d.digits / 10 ^ places)
        ('.' :: digitsOf places d.digits []) ∧
      w.decimal.value = d.value ∧ w.exponent = none ∧ (w.whole.length : ℤ) = d.lead := by
  have hsum : digitCount d.digits - places + places = digitCount d.digits :=
    Nat.sub_add_cancel hplaces.le
  have hne := digitsOf_ne_nil hpos d.digits
  refine ⟨⟨digitsOf (digitCount d.digits - places) (d.digits / 10 ^ places) [], digitsOf places d.digits [],
    none, isWhole_digitsOf (head_ne_zero hplaces) (digitCount_div_pow d.digits places).symm,
    fun _ => isDigit_of_mem_digitsOf⟩, ?_, ?_, rfl, ?_⟩
  · rw [UnsignedText.text_of_fraction rfl hne, digitsOf_tail _ _ ('.' :: _)]
  · rw [UnsignedText.value_decimal, Decimal.value]
    dsimp only
    rw [digitsValue_cut (hsum.symm ▸ lt_pow_digitCount d.digits), length_digitsOf, hexponent]
    congr 2
    exact zero_sub _
  · rw [length_digitsOf, Decimal.lead]
    omega

theorem exists_belowText {places : ℕ} (hexponent : d.exponent = -places) (hpos : 0 < places)
    (hplaces : digitCount d.digits ≤ places) :
    ∃ w : UnsignedText, w.text = '0' :: '.' :: digitsOf places d.digits [] ∧
      w.decimal.value = d.value ∧ w.exponent = none ∧ w.whole.length = 1 := by
  have hne := digitsOf_ne_nil hpos d.digits
  have hlt : d.digits < 10 ^ places :=
    (lt_pow_digitCount d.digits).trans_le (Nat.pow_le_pow_right (by decide) hplaces)
  have hzero : ('0'.toNat - 48) * 10 ^ places = 0 := Nat.zero_mul _
  refine ⟨⟨['0'], digitsOf places d.digits [], none, isWhole_zero, fun _ => isDigit_of_mem_digitsOf⟩,
    ?_, ?_, rfl, rfl⟩
  · exact UnsignedText.text_of_fraction rfl hne
  · rw [UnsignedText.value_decimal, Decimal.value]
    dsimp only
    rw [List.singleton_append, digitsValue_cons, digitsValue_digitsOf, Nat.mod_eq_of_lt hlt,
      length_digitsOf, hzero, Nat.zero_add, hexponent]
    congr 2
    exact zero_sub _

theorem exists_positionalText (hd : d.digits ≠ 0) :
    ∃ w : UnsignedText, w.text = positionalText d ∧ w.decimal.value = d.value ∧ w.exponent = none ∧
      (w.whole.length : ℤ) ≤ max 1 d.lead := by
  unfold positionalText
  simp only [Nat.pow_eq]
  split_ifs with hwhole hplaces
  · obtain ⟨w, htext, hvalue, hnone, hlength⟩ := exists_wholeText hd hwhole
    exact ⟨w, htext, hvalue, hnone, by omega⟩
  · obtain ⟨w, htext, hvalue, hnone, hlength⟩ :=
      exists_amongText (d := d) (by omega) (by omega) hplaces
    exact ⟨w, htext, hvalue, hnone, by omega⟩
  · obtain ⟨w, htext, hvalue, hnone, hlength⟩ :=
      exists_belowText (by omega : d.exponent = -((-d.exponent).toNat : ℤ)) (by omega) (by omega)
    exact ⟨w, htext, hvalue, hnone, by omega⟩

/-! ## With an exponent -/

/-- The exponent that is written for a whole number. -/
def exponentOf (plus : Bool) (n : ℤ) : ExponentText where
  mark := 'e'
  sign := if n < 0 then some true else if plus then some false else none
  digits := decimalText n.natAbs
  isMark := by decide
  ne_nil := decimalText_ne_nil _
  isDigit := fun _ => isDigit_of_mem_decimalText

theorem value_exponentOf (plus : Bool) (n : ℤ) : (exponentOf plus n).value = n := by
  unfold ExponentText.value exponentOf
  dsimp only
  rw [digitsValue_decimalText]
  split_ifs <;> first | omega | simp_all

theorem exists_exponentText (plus : Bool) (hd : d.digits ≠ 0) :
    ∃ w : UnsignedText, w.text = exponentText plus d ∧ w.decimal.value = d.value ∧
      w.exponent = some (exponentOf plus (d.lead - 1)) ∧ w.whole.length = 1 := by
  obtain ⟨k, hk⟩ := Nat.exists_eq_succ_of_ne_zero (digitCount_pos hd).ne'
  have hhead : d.digits / 10 ^ k ≠ 0 := head_ne_zero (by omega)
  have hcount : 1 = digitCount (d.digits / 10 ^ k) := by
    rw [digitCount_div_pow, hk]
    omega
  refine ⟨⟨digitsOf 1 (d.digits / 10 ^ k) [], digitsOf k d.digits [], some (exponentOf plus (d.lead - 1)),
    isWhole_digitsOf hhead hcount, fun _ => isDigit_of_mem_digitsOf⟩, ?_, ?_, rfl, length_digitsOf _ _⟩
  · have hfraction : (if digitCount d.digits ≤ 1 then [] else '.' :: digitsOf k d.digits []) =
        fractionText (digitsOf k d.digits []) := by
      unfold fractionText
      refine if_congr ?_ rfl rfl
      rw [← List.length_eq_zero_iff, length_digitsOf]
      omega
    have hsign : signText (exponentOf plus (d.lead - 1)).sign =
        if d.lead - 1 < 0 then ['-'] else if plus then ['+'] else [] := by
      unfold exponentOf
      dsimp only
      split_ifs <;> rfl
    unfold exponentText UnsignedText.text UnsignedText.exponentText
    dsimp only
    rw [Nat.pow_eq, show digitCount d.digits - 1 = k by omega, hfraction, digitsOf_tail _ _ (fractionText _),
      Option.elim_some, ExponentText.text, hsign, List.append_assoc, List.append_assoc]
    rfl
  · have hlt : d.digits < 10 ^ (1 + k) := by
      rw [Nat.add_comm, ← Nat.succ_eq_add_one, ← hk]
      exact lt_pow_digitCount d.digits
    have hexponent : d.lead - 1 - k = d.exponent := by
      unfold Decimal.lead
      omega
    rw [UnsignedText.value_decimal, Decimal.value]
    dsimp only
    rw [digitsValue_cut hlt, length_digitsOf, Option.map_some, Option.getD_some, value_exponentOf, hexponent]

/-! ## Magnitudes -/

/-- A number that is rounded to neither zero nor infinity has no large exponent. -/
theorem natAbs_lead_le {m : ℕ} (hm : m ≠ 0) (hlt : m < BinaryFormat.binary64.infinity)
    (h : d.magnitude .binary64 = m) : d.lead.natAbs ≤ 2048 := by
  have hpow : (Nat.pow 2 BinaryFormat.binary64.exponentBits : ℤ) = 2048 := rfl
  unfold Decimal.magnitude Decimal.magnitudeAt at h
  rw [hpow] at h
  split_ifs at h with hzero hlarge <;> omega

theorem exists_zeroText : ∃ w : UnsignedText, w.text = ['0', '.', '0'] ∧ w.Moderate ∧
    w.decimal.magnitude .binary64 = 0 := by
  refine ⟨⟨['0'], ['0'], none, isWhole_zero, isWhole_zero.isDigit⟩, rfl, ⟨by simp, by simp⟩, if_pos (.inl ?_)⟩
  show digitsValue ['0', '0'] = 0
  rw [digitsValue_cons, digitsValue_cons, digitsValue_nil]
  rfl

/-- **The text of a magnitude is a moderate number that rounds to it.** -/
theorem exists_writeFinite {m : ℕ} (hm : m < BinaryFormat.binary64.infinity) :
    ∃ w : UnsignedText, w.text = jsonStyle.writeFinite .binary64 m ∧ w.Moderate ∧
      w.decimal.magnitude .binary64 = m := by
  have hformat : BinaryFormat.binary64.smallest ≤ Nat.pow 2 BinaryFormat.binary64.exponentBits := by decide
  unfold writeFinite
  by_cases hzero : m = 0
  · rw [if_pos hzero, if_pos (by decide), hzero]
    exact exists_zeroText
  · have hdigits := shortest_digits_ne_zero hformat jsonStyle.tie hzero hm
    have hmagnitude := magnitude_shortest hformat jsonStyle.tie hzero hm
    rw [if_neg hzero]
    dsimp only
    generalize shortest .binary64 jsonStyle.tie m = d at hdigits hmagnitude
    have hlead := natAbs_lead_le hzero hm hmagnitude
    split_ifs with hpositional
    · obtain ⟨w, htext, hvalue, hnone, hlength⟩ := exists_positionalText hdigits
      have hupper : d.lead - 1 ≤ 15 := by
        simp only [jsonStyle, if_true, decide_eq_true_eq] at hpositional
        exact hpositional.2
      refine ⟨w, htext, ⟨by omega, by rw [hnone]; rintro x ⟨⟩⟩, ?_⟩
      rw [Decimal.magnitude_congr _ hvalue, hmagnitude]
    · obtain ⟨w, htext, hvalue, hsome, hlength⟩ := exists_exponentText jsonStyle.plus hdigits
      refine ⟨w, htext, ⟨by omega, ?_⟩, ?_⟩
      · rw [hsome]
        rintro x ⟨⟩
        show digitsValue (decimalText (d.lead - 1).natAbs) < 2050
        rw [digitsValue_decimalText]
        omega
      · rw [Decimal.magnitude_congr _ hvalue, hmagnitude]

end QpReferee.JsonText

import QpReferee.Proofs.JsonText.Floats
import QpReferee.Proofs.JsonText.Strings

/-!
# Cut values

A value that is cut short ends too early, or its beginning is a value of its own. The latter is only so for a
number: it may end behind any of its digits. What is left of a moderate number is still in range, so even then
nothing but the end of the text can be wrong.

* `IsCut` : a proper beginning of a text.
* `NumberText.scanNumeral_cut` : **a cut number ends where a digit has to follow, or is a smaller number.**
* `readFloat_cut`, `readBool_cut`, `readString_cut` : cut values that are read.
-/

namespace QpReferee.JsonText

/-! ## Beginnings -/

def IsCut (p t : List Char) : Prop := p <+: t ∧ p ≠ t

variable {p a b t : List Char} {c : Char}

theorem IsCut.of_append (h : IsCut p (a ++ b)) : IsCut p a ∨ ∃ q, p = a ++ q ∧ IsCut q b := by
  obtain ⟨⟨s, hs⟩, hne⟩ := h
  rcases List.append_eq_append_iff.mp hs with ⟨q, ha, -⟩ | ⟨q, hp, hb⟩
  · by_cases hq : q = []
    · rw [hq, List.append_nil] at ha
      refine .inr ⟨[], by rw [ha, List.append_nil], List.nil_prefix, fun hb => hne ?_⟩
      rw [← hb, ha, List.append_nil]
    · refine .inl ⟨⟨q, ha.symm⟩, fun hpa => hq ?_⟩
      rw [hpa] at ha
      exact List.append_cancel_left (ha.symm.trans (List.append_nil a).symm)
  · exact .inr ⟨q, hp, ⟨s, hb.symm⟩, fun hqb => hne (by rw [hp, hqb])⟩

theorem IsCut.of_cons (h : IsCut p (c :: t)) : p = [] ∨ ∃ q, p = c :: q ∧ IsCut q t := by
  rcases List.prefix_cons_iff.mp h.1 with hnil | ⟨q, rfl, hq⟩
  · exact .inl hnil
  · exact .inr ⟨q, rfl, hq, fun heq => h.2 (by rw [heq])⟩

theorem not_isCut_nil : ¬IsCut p [] := fun h => h.2 (List.prefix_nil.mp h.1)

theorem IsCut.of_singleton (h : IsCut p [c]) : p = [] := by
  rcases h.of_cons with hnil | ⟨q, -, hq⟩
  · exact hnil
  · exact absurd hq not_isCut_nil

theorem IsCut.forall_mem {P : Char → Prop} (h : IsCut p t) (ht : ∀ c ∈ t, P c) : ∀ c ∈ p, P c :=
  fun c hc => ht c (h.1.subset hc)

theorem IsCut.endsNumber (h : IsCut p t) (ht : EndsNumber t) : EndsNumber p := by
  rintro c s rfl
  obtain ⟨q, hq⟩ := h.1
  exact ht c (s ++ q) hq.symm

/-! ## Numbers -/

variable {atEnd : Error}

theorem digitsValue_cut_le (h : IsCut p t) : 10 * digitsValue p ≤ digitsValue t := by
  obtain ⟨⟨s, rfl⟩, hne⟩ := h
  have hs : s ≠ [] := fun hs => hne (by rw [hs, List.append_nil])
  have hpow : 10 ^ 1 ≤ 10 ^ s.length :=
    Nat.pow_le_pow_right (by decide) (List.length_pos_iff.mpr hs)
  rw [digitsValue_append, Nat.mul_comm]
  exact (Nat.mul_le_mul_left _ hpow).trans (Nat.le_add_right _ _)

theorem IsWhole.of_isCut (h : IsWhole t) (hp : IsCut p t) (hne : p ≠ []) : IsWhole p := by
  refine ⟨hp.forall_mem h.isDigit, ?_⟩
  obtain ⟨c, cs, rfl⟩ := List.exists_cons_of_ne_nil hne
  obtain ⟨s, hs⟩ := hp.1
  rcases h.leading with hzero | ⟨d, ds, rfl, hd⟩
  · rw [hzero] at hp
    exact absurd hp.of_singleton hne
  · rw [List.cons_append] at hs
    exact .inr ⟨c, cs, rfl, (List.cons.inj hs).1 ▸ hd⟩

/-- A text that ends inside an exponent, before its first digit. -/
structure EndsInExponent (p : List Char) : Prop where
  mark : ∃ c s, p = c :: s ∧ isExponentMark c = true
  scan : ∀ atEnd, scanExponent atEnd p = .error atEnd

theorem endsInExponent {c : Char} (hc : isExponentMark c = true) {s : List Char}
    (hs : (exponentSign s).2 = []) : EndsInExponent (c :: s) := by
  refine ⟨⟨c, s, rfl, hc⟩, fun atEnd => ?_⟩
  rw [scanExponent, if_pos hc, hs]
  rfl

theorem ExponentText.of_isCut (x : ExponentText) (h : IsCut p x.text) :
    p = [] ∨ EndsInExponent p ∨
      ∃ x' : ExponentText, x'.text = p ∧ 10 * digitsValue x'.digits ≤ digitsValue x.digits := by
  rcases h.of_cons with hnil | ⟨q, rfl, hq⟩
  · exact .inl hnil
  · refine .inr ?_
    rcases hq.of_append with hsign | ⟨ds, rfl, hds⟩
    · have hq : q = [] := by
        rcases hs : x.sign with _ | _ | _ <;> rw [hs] at hsign
        · exact absurd hsign not_isCut_nil
        · exact hsign.of_singleton
        · exact hsign.of_singleton
      exact .inl (endsInExponent x.isMark (by rw [hq]; rfl))
    · by_cases hne : ds = []
      · refine .inl (endsInExponent x.isMark ?_)
        rw [hne]
        rcases x.sign with _ | _ | _ <;> rfl
      · exact .inr ⟨⟨x.mark, x.sign, ds, x.isMark, hne, hds.forall_mem x.isDigit⟩, rfl,
          digitsValue_cut_le hds⟩

/-- What is left of a number has no more digits before the point and, if any, a smaller exponent. -/
structure UnsignedText.Shortens (w w' : UnsignedText) : Prop where
  length_whole : w'.whole.length ≤ w.whole.length
  exponent : ∀ x' ∈ w'.exponent, ∃ x ∈ w.exponent, 10 * digitsValue x'.digits ≤ digitsValue x.digits

theorem scanUnsigned_endsInExponent (negative : Bool) {fraction e : List Char} (hwhole : IsWhole t)
    (hfraction : ∀ c ∈ fraction, c.isDigit = true) (he : EndsInExponent e) :
    scanUnsigned atEnd negative (t ++ (fractionText fraction ++ e)) = .error atEnd := by
  obtain ⟨c, s, hs, hmark⟩ := he.mark
  obtain ⟨hdigit, hpoint⟩ := not_isDigit_of_isExponentMark hmark
  have hexponent : NoDigit e := hs ▸ noDigit_cons hdigit
  unfold scanUnsigned
  rw [scanWhole_append hwhole (hexponent.fractionText_append _)]
  dsimp only
  rw [scanFraction_append hfraction hexponent fun s' hs' => hpoint (List.cons.inj (hs.symm.trans hs')).1]
  dsimp only
  rw [he.scan]

theorem scanUnsigned_point (negative : Bool) (hwhole : IsWhole t) :
    scanUnsigned atEnd negative (t ++ ['.']) = .error atEnd := by
  unfold scanUnsigned
  rw [scanWhole_append hwhole (noDigit_cons (by decide))]
  rfl

/-- The places where a number can be cut: before or among the digits before the point, behind the point or
among the digits after it, and in the exponent. -/
theorem UnsignedText.scanUnsigned_cut (w : UnsignedText) (negative : Bool) (h : IsCut p w.text) :
    scanUnsigned atEnd negative p = .error atEnd ∨ ∃ w' : UnsignedText, w'.text = p ∧ w.Shortens w' := by
  rcases h.of_append with hwhole | ⟨q, rfl, hq⟩
  · by_cases hne : p = []
    · exact .inl (by rw [hne]; rfl)
    · refine .inr ⟨⟨p, [], none, w.isWhole.of_isCut hwhole hne, by simp⟩, ?_, ?_, by simp⟩
      · exact List.append_nil p
      · exact hwhole.1.length_le
  · rcases hq.of_append with hfraction | ⟨e, rfl, he⟩
    · unfold fractionText at hfraction
      split_ifs at hfraction with hnil
      · exact absurd hfraction not_isCut_nil
      · rcases hfraction.of_cons with rfl | ⟨f, rfl, hf⟩
        · exact .inr ⟨⟨w.whole, [], none, w.isWhole, by simp⟩, rfl, le_rfl, by simp⟩
        · by_cases hne : f = []
          · exact .inl (by rw [hne, scanUnsigned_point negative w.isWhole])
          · exact .inr ⟨⟨w.whole, f, none, w.isWhole, hf.forall_mem w.isDigit⟩, text_of_fraction rfl hne,
              le_rfl, by simp⟩
    · have hexponent : ∀ x ∈ w.exponent, w.exponentText = x.text := by
        rintro x hx
        rw [exponentText, Option.mem_def.mp hx, Option.elim_some]
      have hsome : ∃ x, w.exponent = some x := by
        refine Option.ne_none_iff_exists'.mp fun hnone => ?_
        rw [exponentText, hnone] at he
        exact not_isCut_nil he
      obtain ⟨x, hx⟩ := hsome
      rw [hexponent x hx] at he
      rcases x.of_isCut he with rfl | hends | ⟨x', rfl, hle⟩
      · exact .inr ⟨⟨w.whole, w.fraction, none, w.isWhole, w.isDigit⟩, rfl, le_rfl, by simp⟩
      · exact .inl (scanUnsigned_endsInExponent negative w.isWhole w.isDigit hends)
      · refine .inr ⟨⟨w.whole, w.fraction, some x', w.isWhole, w.isDigit⟩, rfl, le_rfl, ?_⟩
        rintro x'' ⟨⟩
        exact ⟨x, hx, hle⟩

/-- **A cut number ends where a digit has to follow, or is a smaller number.** -/
theorem NumberText.scanNumeral_cut (w : NumberText) (h : IsCut p w.text) :
    scanNumeral atEnd p = .error atEnd ∨ ∃ w' : NumberText, w'.text = p ∧ w.Shortens w'.toUnsignedText := by
  unfold text at h
  cases hnegative : w.negative with
  | true =>
    rw [hnegative] at h
    rcases h.of_cons with rfl | ⟨q, rfl, hq⟩
    · exact .inl rfl
    · rcases w.scanUnsigned_cut true hq with herror | ⟨w', rfl, hshort⟩
      · exact .inl herror
      · exact .inr ⟨⟨w', true⟩, rfl, hshort⟩
  | false =>
    rw [hnegative] at h
    rcases w.scanUnsigned_cut false h with herror | ⟨w', rfl, hshort⟩
    · refine .inl ?_
      rw [scanNumeral]
      · exact herror
      · rintro s rfl
        obtain ⟨c, s', hs', hdigit⟩ := w.toUnsignedText.exists_cons
        obtain ⟨r, hr⟩ := h.1
        rw [if_neg (by decide), List.nil_append, hs', List.cons_append] at hr
        rw [← (List.cons.inj hr).1] at hdigit
        exact absurd hdigit (by decide)
    · exact .inr ⟨⟨w', false⟩, rfl, hshort⟩

theorem UnsignedText.Shortens.magnitude_lt {w w' : UnsignedText} (h : w.Shortens w') (hw : w.Moderate) :
    w'.decimal.magnitude .binary64 < BinaryFormat.binary64.infinity := by
  refine Decimal.magnitude_lt_infinity (k := 100) ?_ (by decide)
  have hdigits : ∀ c ∈ w'.whole ++ w'.fraction, c.isDigit = true := fun c hc =>
    (List.mem_append.mp hc).elim (w'.isWhole.isDigit c) (w'.isDigit c)
  have hcount := digitCount_le_of_lt (digitsValue_lt hdigits)
  have hexponent : (w'.exponent.map ExponentText.value).getD 0 ≤ 204 := by
    cases hx' : w'.exponent with
    | none => simp
    | some x' =>
      obtain ⟨x, hx, hle⟩ := h.exponent x' hx'
      have hlt := hw.exponent_lt x hx
      rw [Option.map_some, Option.getD_some, ExponentText.value]
      split_ifs <;> omega
  have hlength := h.length_whole.trans hw.length_whole
  rw [List.length_append] at hcount
  show (digitCount (digitsValue (w'.whole ++ w'.fraction)) : ℤ) +
    ((w'.exponent.map ExponentText.value).getD 0 - w'.fraction.length) ≤ 300
  omega

/-! ## Values -/

/-- A reader has come to the end of the text: it asks for more, or has read it all. -/
def ReachesEnd {α : Type} (r : Read α) : Prop := r = .error .truncated ∨ ∃ a, r = .ok (a, [])

theorem readLiteral_cut (h : IsCut p t) : readLiteral t p = .error .truncated := by
  induction t generalizing p with
  | nil => exact absurd h not_isCut_nil
  | cons c t ih =>
    rcases h.of_cons with rfl | ⟨q, rfl, hq⟩
    · rfl
    · rw [readLiteral, if_pos rfl, ih hq]

theorem readConstant_cut {α : Type} (value : α) (h : IsCut p t) :
    readConstant t value p = .error .truncated := by
  rw [readConstant, readLiteral_cut h]

theorem readOptional_nil {α : Type} {read : List Char → Read α} (hread : read [] = .error .truncated) :
    readOptional read [] = .error .truncated := by
  simp only [readOptional, skipBlank, List.dropWhile_nil, hread]

theorem readOptional_cut_null {α : Type} {read : List Char → Read α} (hread : read [] = .error .truncated)
    (h : IsCut p ['n', 'u', 'l', 'l']) : readOptional read p = .error .truncated := by
  rcases h.of_cons with rfl | ⟨q, rfl, hq⟩
  · exact readOptional_nil hread
  · unfold readOptional
    rw [skipBlank_cons (by decide)]
    exact readConstant_cut none hq

theorem readBool_cut (value : Bool) (h : IsCut p (writeBool value)) : readBool p = .error .truncated := by
  unfold readBool
  cases value with
  | true =>
    rcases h.of_cons with rfl | ⟨q, rfl, hq⟩
    · rfl
    · rw [skipBlank_cons (by decide)]
      exact readConstant_cut true hq
  | false =>
    rcases h.of_cons with rfl | ⟨q, rfl, hq⟩
    · rfl
    · rw [skipBlank_cons (by decide)]
      exact readConstant_cut false hq

theorem readOptional_cut {α : Type} {read : List Char → Read α} (hnil : read [] = .error .truncated)
    (hstart : ∃ c s, t = c :: s ∧ isBlank c = false ∧ c ≠ 'n') (h : IsCut p t) (hread : ReachesEnd (read p)) :
    ReachesEnd (readOptional read p) := by
  obtain ⟨c, s, rfl, hblank, hn⟩ := hstart
  rcases h.of_cons with rfl | ⟨q, rfl, -⟩
  · exact .inl (readOptional_nil hnil)
  · rcases hread with herror | ⟨a, hread⟩
    · refine .inl ?_
      unfold readOptional
      rw [skipBlank_cons hblank]
      split
      · next heq => exact absurd (List.cons.inj heq).1 hn
      · rw [herror]
    · exact .inr ⟨some a, readOptional_some hblank hn hread⟩

theorem readCharacters_unclosed (hp : p.all isPlain = true) (read : List Char) :
    readCharacters read p = .error .truncated := by
  induction p generalizing read with
  | nil => rw [readCharacters]
  | cons c p ih =>
    rw [List.all_cons, Bool.and_eq_true] at hp
    rw [readCharacters_cons hp.1, ih hp.2]

theorem readString_cut {text : String} (htext : text.toList.all isPlain = true)
    (h : IsCut p (text.toList ++ ['"'])) : readString p = .error .truncated := by
  refine readCharacters_unclosed (List.all_eq_true.mpr ?_) []
  rcases h.of_append with hcut | ⟨q, rfl, hq⟩
  · exact hcut.forall_mem (List.all_eq_true.mp htext)
  · rw [hq.of_singleton, List.append_nil]
    exact List.all_eq_true.mp htext

theorem readKey_cut {key : String} (hkey : key.toList.all isPlain = true) (h : IsCut p (writePlain key)) :
    readKey p = .error .truncated := by
  rcases h.of_cons with rfl | ⟨q, rfl, hq⟩
  · rfl
  · exact readString_cut hkey hq

theorem readVariant_cut {α β : Type} {alternatives : Alternatives α β} {name : String}
    (hname : name.toList.all isPlain = true) (h : IsCut p (writePlain name)) :
    readVariant alternatives p = .error .truncated := by
  rcases h.of_cons with rfl | ⟨q, rfl, hq⟩
  · rfl
  · have hread : readString q = .error .truncated := readString_cut hname hq
    simp only [readVariant, skipBlank_cons (by decide : isBlank '"' = false), hread]

/-- A cut number asks for more, or has been read to the end: its range is no reason to refuse it. -/
theorem readFloat_cut {w : NumberText} (hw : w.Moderate) (h : IsCut p w.text) : ReachesEnd (readFloat p) := by
  have hcut : scanNumeral .truncated p = .error .truncated ∨ _ := w.scanNumeral_cut h
  rcases hcut with herror | ⟨w', rfl, hshort⟩
  · refine .inl ?_
    cases p with
    | nil => rfl
    | cons c p =>
      obtain ⟨d, s, hs, hstart⟩ := w.exists_cons
      obtain ⟨r, hr⟩ := h.1
      rw [hs, List.cons_append] at hr
      rw [readFloat, readNumber_cons ((List.cons.inj hr).1 ▸ hstart), readNumeral, herror]
  · have hlt := hshort.magnitude_lt hw
    have hread : readFloat (w'.text ++ []) = _ := readFloat_text w' (by rintro c s ⟨⟩)
    rw [← w'.magnitude_numeral w'.negative] at hlt
    rw [List.append_nil, if_neg (show ¬w'.numeral.magnitude = _ from hlt.ne)] at hread
    exact .inr ⟨_, hread⟩

end QpReferee.JsonText

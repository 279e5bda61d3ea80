import QpReferee.Proofs.JsonText.Grammar

/-!
# What is read is in the grammar

Readers and skippers take nothing that the grammar does not write. Behind a text that is taken stands a number,
a string or a value, and the text is its tokens with blanks between them. While brackets are open, the rest of
the text has to complete them, from the innermost to the outermost.

* `scanNumeral_eq_ok`, `readString_eq_ok`, `skipString_eq_ok` : numbers and strings.
* `Heads` : a text starts with some tokens.
* `Completes` : the tokens that are missing at a position inside open brackets.
* `skipValue_eq_ok` : **what is skipped is a value.**
* `TakesValues` : a reader that takes only values.
-/

namespace QpReferee.JsonText

variable {s r : List Char}

/-! ## Numbers -/

section

variable {atEnd : Error} {ds : List Char}

theorem scanDigits_eq_ok (h : scanDigits atEnd s = .ok (ds, r)) :
    s = ds ++ r ∧ ds ≠ [] ∧ ∀ c ∈ ds, c.isDigit = true := by
  unfold scanDigits at h
  split_ifs at h with hstart
  cases h
  refine ⟨List.takeWhile_append_dropWhile.symm, ?_, fun c hc => List.mem_takeWhile_imp hc⟩
  cases s with
  | nil => cases hstart
  | cons c s =>
    have hc : c.isDigit = true := hstart
    rw [List.takeWhile_cons_of_pos hc]
    exact List.cons_ne_nil _ _

theorem scanWhole_eq_ok (h : scanWhole atEnd s = .ok (ds, r)) : s = ds ++ r ∧ IsWhole ds := by
  unfold scanWhole at h
  split at h
  · split_ifs at h
    cases h
    exact ⟨rfl, isWhole_zero⟩
  · next hzero =>
    obtain ⟨rfl, hne, hdigit⟩ := scanDigits_eq_ok h
    obtain ⟨c, cs, rfl⟩ := List.exists_cons_of_ne_nil hne
    refine ⟨rfl, hdigit, .inr ⟨c, cs, rfl, ?_⟩⟩
    rintro rfl
    exact hzero (cs ++ r) rfl

theorem scanFraction_eq_ok (h : scanFraction atEnd s = .ok (ds, r)) :
    s = fractionText ds ++ r ∧ ∀ c ∈ ds, c.isDigit = true := by
  unfold scanFraction at h
  split at h
  · obtain ⟨rfl, hne, hdigit⟩ := scanDigits_eq_ok h
    rw [fractionText, if_neg hne]
    exact ⟨rfl, hdigit⟩
  · cases h
    exact ⟨rfl, by simp⟩

theorem exists_signText (s : List Char) : ∃ sign, s = signText sign ++ (exponentSign s).2 := by
  unfold exponentSign
  split
  · exact ⟨some false, rfl⟩
  · exact ⟨some true, rfl⟩
  · exact ⟨none, rfl⟩

theorem scanExponent_eq_ok {x : Option ℤ} (h : scanExponent atEnd s = .ok (x, r)) :
    ∃ exponent : Option ExponentText, s = exponent.elim [] ExponentText.text ++ r := by
  unfold scanExponent at h
  split at h
  · next c rest =>
    by_cases hmark : isExponentMark c = true
    · rw [if_pos hmark] at h
      split at h
      · cases h
      · next ds _ hdigits =>
        cases h
        obtain ⟨sign, hsign⟩ := exists_signText rest
        obtain ⟨hrest, hne, hdigit⟩ := scanDigits_eq_ok hdigits
        refine ⟨some ⟨c, sign, ds, hmark, hne, hdigit⟩, ?_⟩
        rw [Option.elim_some, ExponentText.text, List.cons_append, List.append_assoc, ← hrest, ← hsign]
    · rw [if_neg hmark] at h
      cases h
      exact ⟨none, rfl⟩
  · cases h
    exact ⟨none, rfl⟩

theorem scanUnsigned_eq_ok {negative : Bool} {n : Numeral} (h : scanUnsigned atEnd negative s = .ok (n, r)) :
    ∃ w : UnsignedText, s = w.text ++ r := by
  unfold scanUnsigned at h
  split at h
  · cases h
  next whole _ hwhole =>
  split at h
  · cases h
  next fraction _ hfraction =>
  split at h
  · cases h
  next hexponent =>
  cases h
  obtain ⟨rfl, hisWhole⟩ := scanWhole_eq_ok hwhole
  obtain ⟨rfl, hdigit⟩ := scanFraction_eq_ok hfraction
  obtain ⟨exponent, rfl⟩ := scanExponent_eq_ok hexponent
  refine ⟨⟨whole, fraction, exponent, hisWhole, hdigit⟩, ?_⟩
  rw [UnsignedText.text, List.append_assoc, List.append_assoc]
  rfl

theorem scanNumeral_eq_ok {n : Numeral} (h : scanNumeral atEnd s = .ok (n, r)) :
    ∃ w : NumberText, s = w.text ++ r := by
  unfold scanNumeral at h
  split at h
  · obtain ⟨w, rfl⟩ := scanUnsigned_eq_ok h
    exact ⟨⟨w, true⟩, rfl⟩
  · obtain ⟨w, rfl⟩ := scanUnsigned_eq_ok h
    exact ⟨⟨w, false⟩, rfl⟩

end

/-! ## Strings -/

theorem readUnit_eq_ok {n : ℕ} (h : readUnit s = .ok (n, r)) : ∃ u : CodeUnit, s = u.text ++ r := by
  unfold readUnit at h
  split at h
  · split at h
    · next a b c d ha hb hc hd =>
      cases h
      exact ⟨⟨⟨_, a, ha⟩, ⟨_, b, hb⟩, ⟨_, c, hc⟩, ⟨_, d, hd⟩⟩, rfl⟩
    · cases h
  · split_ifs at h

theorem skipEscape_eq_ok (h : skipEscape s = .ok r) : ∃ symbol : Symbol, '\\' :: s = symbol.text ++ r := by
  unfold skipEscape at h
  split at h
  · cases h
  · split at h
    · cases h
    · next hunit =>
      cases h
      obtain ⟨u, rfl⟩ := readUnit_eq_ok hunit
      exact ⟨.unit u, rfl⟩
  · split_ifs at h with hshort
    cases h
    obtain ⟨c, hc⟩ := Option.isSome_iff_exists.mp hshort
    exact ⟨.short _ c hc, rfl⟩

theorem isPlain_of_not {c : Char} (hquote : c ≠ '"') (hslash : c ≠ '\\') (hcontrol : ¬isControl c = true) :
    isPlain c = true := by
  simp only [isPlain, Bool.and_eq_true, bne_iff_ne, Bool.not_eq_true']
  exact ⟨⟨hquote, hslash⟩, Bool.eq_false_iff.mpr hcontrol⟩

theorem skipString_eq_ok (h : skipString s = .ok r) : ∃ symbols, s = stringTail symbols ++ r := by
  fun_induction skipString s with
  | case1 => cases h
  | case2 rest =>
    cases h
    exact ⟨[], rfl⟩
  | case3 => cases h
  | case4 rest rest' hescape _ ih =>
    obtain ⟨symbols, rfl⟩ := ih h
    obtain ⟨symbol, hsymbol⟩ := skipEscape_eq_ok hescape
    exact ⟨symbol :: symbols, hsymbol.trans (stringTail_cons symbol symbols r).symm⟩
  | case5 => cases h
  | case6 c rest hquote hslash hcontrol ih =>
    obtain ⟨symbols, rfl⟩ := ih h
    exact ⟨.plain c (isPlain_of_not hquote hslash hcontrol) :: symbols, rfl⟩

theorem readTrailing_eq_ok {n : ℕ} (h : readTrailing s = .ok (n, r)) :
    ∃ v : CodeUnit, s = '\\' :: 'u' :: v.text ++ r := by
  unfold readTrailing at h
  split at h
  · cases h
  · cases h
  · split at h
    · cases h
    · next hunit =>
      split_ifs at h
      cases h
      obtain ⟨v, rfl⟩ := readUnit_eq_ok hunit
      exact ⟨v, rfl⟩
  · cases h

theorem readEscape_eq_ok {c : Char} (h : readEscape s = .ok (c, r)) :
    ∃ symbols : List Symbol, '\\' :: s = symbols.flatMap Symbol.text ++ r := by
  unfold readEscape at h
  split at h
  · cases h
  · next rest =>
    unfold readUnits at h
    split at h
    · cases h
    · next n rest' hunit =>
      obtain ⟨u, rfl⟩ := readUnit_eq_ok hunit
      split_ifs at h
      · split at h
        · cases h
        · next htrailing =>
          obtain ⟨-, rfl⟩ := Prod.mk.inj (Except.ok.inj h)
          obtain ⟨v, rfl⟩ := readTrailing_eq_ok htrailing
          exact ⟨[.unit u, .unit v], by simp [Symbol.text]⟩
      · cases h
        exact ⟨[.unit u], by simp [Symbol.text]⟩
  · split at h
    · next hshort =>
      cases h
      exact ⟨[.short _ _ hshort], rfl⟩
    · cases h

theorem readCharacters_eq_ok {read cs : List Char} (h : readCharacters read s = .ok (cs, r)) :
    ∃ symbols, s = stringTail symbols ++ r := by
  fun_induction readCharacters read s with
  | case1 => cases h
  | case2 read rest =>
    cases h
    exact ⟨[], rfl⟩
  | case3 => cases h
  | case4 read rest c rest' hescape _ ih =>
    obtain ⟨symbols, rfl⟩ := ih h
    obtain ⟨first, hfirst⟩ := readEscape_eq_ok hescape
    exact ⟨first ++ symbols, hfirst.trans (by simp [stringTail])⟩
  | case5 => cases h
  | case6 read c rest hquote hslash hcontrol ih =>
    obtain ⟨symbols, rfl⟩ := ih h
    exact ⟨.plain c (isPlain_of_not hquote hslash hcontrol) :: symbols, rfl⟩

theorem readString_eq_ok {cs : List Char} (h : readString s = .ok (cs, r)) :
    ∃ symbols, s = stringTail symbols ++ r :=
  readCharacters_eq_ok h

/-! ## Tokens -/

/-- A text is some tokens with blanks in front of them, and another text. -/
def Heads (ts : List (List Char)) (s r : List Char) : Prop := ∀ ts', Spaced ts' r → Spaced (ts ++ ts') s

variable {ts ts' : List (List Char)} {token q : List Char}

theorem Heads.trans (h : Heads ts s r) (h' : Heads ts' r q) : Heads (ts ++ ts') s q := by
  intro ts'' hq
  rw [List.append_assoc]
  exact h _ (h' _ hq)

theorem Spaced.append {blanks t : List Char} (hblank : ∀ c ∈ blanks, isBlank c = true) (h : Spaced ts t) :
    Spaced ts (blanks ++ t) := by
  cases h with
  | nil h => exact .nil fun c hc => (List.mem_append.mp hc).elim (hblank c) (h c)
  | cons h rest =>
    rw [← List.append_assoc]
    exact .cons (fun c hc => (List.mem_append.mp hc).elim (hblank c) (h c)) rest

theorem Spaced.of_skipBlank (h : Spaced ts (skipBlank s)) : Spaced ts s := by
  have hs : s.takeWhile isBlank ++ skipBlank s = s := List.takeWhile_append_dropWhile
  rw [← hs]
  exact h.append fun c hc => List.mem_takeWhile_imp hc

theorem Heads.of_skipBlank (h : Heads ts (skipBlank s) r) : Heads ts s r :=
  fun ts' hr => (h ts' hr).of_skipBlank

theorem heads_token (h : skipBlank s = token ++ r) : Heads [token] s r := by
  refine Heads.of_skipBlank fun ts' hr => ?_
  rw [h]
  exact spaced_cons token hr

theorem readLiteral_eq_ok {literal : List Char} (h : readLiteral literal s = .ok r) : s = literal ++ r := by
  fun_induction readLiteral literal s with
  | case1 s =>
    cases h
    rfl
  | case2 => cases h
  | case3 c literal s ih => rw [ih h, List.cons_append]
  | case4 => cases h

theorem skipAtom_eq_ok (h : skipAtom s = .ok r) : ∃ (v : Json) (token : List Char),
    v.tokens = [token] ∧ s = token ++ r := by
  unfold skipAtom at h
  split at h
  · cases h
  · exact ⟨.null, _, by rw [Json.tokens], congrArg _ (readLiteral_eq_ok h)⟩
  · exact ⟨.bool true, _, by rw [Json.tokens], congrArg _ (readLiteral_eq_ok h)⟩
  · exact ⟨.bool false, _, by rw [Json.tokens], congrArg _ (readLiteral_eq_ok h)⟩
  · obtain ⟨symbols, rfl⟩ := skipString_eq_ok h
    exact ⟨.string symbols, _, by rw [Json.tokens], rfl⟩
  · split_ifs at h
    split at h
    · cases h
    · next hscan =>
      cases h
      obtain ⟨w, hw⟩ := scanNumeral_eq_ok hscan
      exact ⟨.number w, _, by rw [Json.tokens], hw⟩

theorem skipToken_eq_ok_none (h : skipToken s = .ok (none, r)) : ∃ v : Json, Heads v.tokens s r := by
  unfold skipToken at h
  split at h
  · cases h
  · cases h
  · split at h
    · cases h
    · next hatom =>
      cases h
      obtain ⟨v, token, htokens, hs⟩ := skipAtom_eq_ok hatom
      exact ⟨v, htokens ▸ heads_token hs⟩

theorem skipToken_eq_ok_some {bracket : Bracket} (h : skipToken s = .ok (some bracket, r)) :
    Heads [[bracket.opening]] s r := by
  unfold skipToken at h
  split at h
  · next hblank =>
    cases h
    exact heads_token hblank
  · next hblank =>
    cases h
    exact heads_token hblank
  · split at h <;> cases h

theorem skipColon_eq_ok (h : skipColon s = .ok r) : Heads [[':']] s r := by
  unfold skipColon at h
  split at h
  · cases h
  · next hblank =>
    split_ifs at h with hcolon
    cases h
    exact heads_token (hblank.trans (by rw [hcolon]; rfl))

theorem skipKey_eq_ok (h : skipKey s = .ok r) :
    ∃ key : List Symbol, Heads [stringText key, [':']] s r := by
  unfold skipKey at h
  split at h
  · cases h
  · next hblank =>
    split_ifs at h with hquote
    split at h
    · cases h
    · next hstring =>
      obtain ⟨key, rfl⟩ := skipString_eq_ok hstring
      have hkey : Heads [stringText key] s _ := heads_token (hblank.trans (by rw [hquote]; rfl))
      exact ⟨key, hkey.trans (skipColon_eq_ok h)⟩

/-! ## Values -/

/-- The tokens of some items of a bracket, and of its end. -/
inductive Inside : Bracket → Bool → List (List Char) → Prop
  | list (first : Bool) (items : List Json) : Inside .list first (itemTokens first items)
  | object (first : Bool) (members : List Member) : Inside .object first (memberTokens first members)

/-- The tokens that close the open brackets, from the innermost to the outermost. -/
inductive Closes : Bool → List Bracket → List (List Char) → Prop
  | outermost (first : Bool) : Closes first [] []
  | bracket {first : Bool} {bracket : Bracket} {brackets : List Bracket} {ts ts' : List (List Char)}
    (h : Inside bracket first ts) (h' : Closes false brackets ts') :
    Closes first (bracket :: brackets) (ts ++ ts')

/-- The tokens that are missing at a position inside open brackets. -/
def Completes : Position → List Bracket → List (List Char) → Prop
  | .value, brackets, ts => ∃ (v : Json) (ts' : List (List Char)),
    ts = v.tokens ++ ts' ∧ Closes false brackets ts'
  | .opened, brackets, ts => Closes true brackets ts
  | .after, brackets, ts => Closes false brackets ts

variable {bracket : Bracket} {brackets : List Bracket}

theorem inside_nil (bracket : Bracket) (first : Bool) : Inside bracket first [[bracket.closing]] := by
  cases bracket with
  | list =>
    have h := Inside.list first []
    rwa [itemTokens] at h
  | object =>
    have h := Inside.object first []
    rwa [memberTokens] at h

theorem skipToItem_eq_ok (h : skipToItem bracket s = .ok r) : ∃ key, Heads key s r ∧
    ∀ (first : Bool) (v : Json) (ts : List (List Char)), Inside bracket false ts →
      Inside bracket first (commaTokens first ++ (key ++ (v.tokens ++ ts))) := by
  cases bracket with
  | list =>
    cases h
    refine ⟨[], fun ts' hr => hr, fun first v ts hts => ?_⟩
    cases hts with
    | list _ items =>
      have hitems := Inside.list first (v :: items)
      rwa [itemTokens] at hitems
  | object =>
    obtain ⟨key, hkey⟩ := skipKey_eq_ok h
    refine ⟨_, hkey, fun first v ts hts => ?_⟩
    cases hts with
    | object _ members =>
      have hmembers := Inside.object first ((key, v) :: members)
      rwa [memberTokens] at hmembers

theorem Completes.opening (h : Completes .opened (bracket :: brackets) ts) :
    Completes .value brackets ([bracket.opening] :: ts) := by
  cases h with
  | bracket hinside houter =>
    cases hinside with
    | list _ items => exact ⟨.list items, _, by rw [Json.tokens]; rfl, houter⟩
    | object _ members => exact ⟨.object members, _, by rw [Json.tokens]; rfl, houter⟩

/-- What is missing in front of the value of an item is missing, together with what stands before it, in front
of the item. -/
theorem Completes.item (h : Completes .value (bracket :: brackets) ts) {key : List (List Char)}
    (hkey : ∀ (first : Bool) (v : Json) (ts : List (List Char)), Inside bracket false ts →
      Inside bracket first (commaTokens first ++ (key ++ (v.tokens ++ ts)))) (first : Bool) :
    Closes first (bracket :: brackets) (commaTokens first ++ (key ++ ts)) := by
  obtain ⟨v, ts', rfl, houter⟩ := h
  cases houter with
  | bracket hinside houter =>
    have h := Closes.bracket (hkey first v _ hinside) houter
    simpa only [List.append_assoc] using h

/-- A skip takes the tokens that are missing at its position. -/
theorem skipFrom_eq_ok {position : Position} (h : skipFrom position brackets s = .ok r) :
    ∃ ts, Completes position brackets ts ∧ Heads ts s r := by
  fun_induction skipFrom position brackets s with
  | case1 => cases h
  | case2 brackets s rest htoken _ ih =>
    obtain ⟨v, hv⟩ := skipToken_eq_ok_none htoken
    obtain ⟨ts, hts, hheads⟩ := ih h
    exact ⟨_, ⟨v, ts, rfl, hts⟩, hv.trans hheads⟩
  | case3 brackets s bracket rest htoken _ ih =>
    obtain ⟨ts, hts, hheads⟩ := ih h
    exact ⟨_, hts.opening, (skipToken_eq_ok_some htoken).trans hheads⟩
  | case4 position s hposition =>
    cases h
    refine ⟨[], ?_, fun ts' hr => hr⟩
    cases position with
    | value => exact absurd rfl hposition
    | opened | after => exact .outermost _
  | case5 => cases h
  | case6 s bracket brackets rest hblank _ ih =>
    obtain ⟨ts, hts, hheads⟩ := ih h
    exact ⟨_, .bracket (inside_nil bracket true) hts, Heads.trans (heads_token hblank) hheads⟩
  | case7 => cases h
  | case8 s bracket brackets c rest hblank _ _ item hitem _ ih =>
    obtain ⟨key, hkey, hinside⟩ := skipToItem_eq_ok hitem
    obtain ⟨ts, hts, hheads⟩ := ih h
    rw [← hblank] at hkey
    exact ⟨_, hts.item hinside true, (hkey.trans hheads).of_skipBlank⟩
  | case9 => cases h
  | case10 s bracket brackets rest hblank _ ih =>
    obtain ⟨ts, hts, hheads⟩ := ih h
    exact ⟨_, .bracket (inside_nil bracket false) hts, Heads.trans (heads_token hblank) hheads⟩
  | case11 => cases h
  | case12 s bracket brackets rest item hitem _ hblank _ _ ih =>
    obtain ⟨key, hkey, hinside⟩ := skipToItem_eq_ok hitem
    obtain ⟨ts, hts, hheads⟩ := ih h
    exact ⟨_, hts.item hinside false, Heads.trans (heads_token hblank) (hkey.trans hheads)⟩
  | case13 => cases h

/-- **What is skipped is a value.** -/
theorem skipValue_eq_ok (h : skipValue s = .ok r) : ∃ v : Json, Heads v.tokens s r := by
  obtain ⟨ts, ⟨v, ts', rfl, hts'⟩, hheads⟩ := skipFrom_eq_ok h
  cases hts'
  exact ⟨v, by rwa [List.append_nil] at hheads⟩

/-! ## Values of one type -/

def TakesValues {α : Type} (read : List Char → Read α) : Prop :=
  ∀ s a r, read s = .ok (a, r) → ∃ v : Json, Heads v.tokens s r

section

variable {α : Type} {a b : α} {literal : List Char}

theorem readConstant_eq_ok (h : readConstant literal a s = .ok (b, r)) : s = literal ++ r := by
  unfold readConstant at h
  split at h
  · cases h
  · next hliteral =>
    cases h
    exact readLiteral_eq_ok hliteral

theorem takesValues_readBool : TakesValues readBool := by
  intro s b r h
  unfold readBool at h
  split at h
  · next hblank =>
    rw [readConstant_eq_ok h] at hblank
    exact ⟨.bool true, by rw [Json.tokens]; exact heads_token hblank⟩
  · next hblank =>
    rw [readConstant_eq_ok h] at hblank
    exact ⟨.bool false, by rw [Json.tokens]; exact heads_token hblank⟩
  · cases h

theorem takesValues_readNull : TakesValues readNull := by
  intro s u r h
  unfold readNull at h
  split at h
  · next hblank =>
    rw [readConstant_eq_ok h] at hblank
    exact ⟨.null, by rw [Json.tokens]; exact heads_token hblank⟩
  · cases h

theorem takesValues_readFloat : TakesValues readFloat := by
  intro s x r h
  unfold readFloat readNumber readNumeral at h
  split at h
  · cases h
  next hnumber =>
  cases h
  split at hnumber
  · cases hnumber
  next hblank =>
  split_ifs at hnumber
  split at hnumber
  · cases hnumber
  next hscan =>
  split_ifs at hnumber
  cases hnumber
  obtain ⟨w, hw⟩ := scanNumeral_eq_ok hscan
  exact ⟨.number w, by rw [Json.tokens]; exact heads_token (hblank.trans hw)⟩

theorem TakesValues.readOptional {read : List Char → Read α} (hread : TakesValues read) :
    TakesValues (JsonText.readOptional read) := by
  intro s o r h
  unfold JsonText.readOptional at h
  split at h
  · next hblank =>
    rw [readConstant_eq_ok h] at hblank
    exact ⟨.null, by rw [Json.tokens]; exact heads_token hblank⟩
  · split at h
    · cases h
    · next hvalue =>
      cases h
      obtain ⟨v, hv⟩ := hread _ _ _ hvalue
      exact ⟨v, hv.of_skipBlank⟩

theorem readKey_eq_ok {text : List Char} (h : readKey s = .ok (text, r)) :
    ∃ key : List Symbol, Heads [stringText key] s r := by
  unfold readKey at h
  split at h
  · cases h
  · next hblank =>
    obtain ⟨key, hkey⟩ := readString_eq_ok h
    exact ⟨key, heads_token (hblank.trans (congrArg _ hkey))⟩
  · cases h

theorem readClosing_eq_ok (h : readClosing a s = .ok (b, r)) : Heads [['}']] s r := by
  unfold readClosing at h
  split at h
  · cases h
  · next hblank =>
    split_ifs at h with hclosing
    cases h
    exact heads_token (hblank.trans (by rw [hclosing]; rfl))

theorem takesValues_readVariant {β : Type} {alternatives : Alternatives α β}
    (hcontent : ∀ a, TakesValues (alternatives.content a)) : TakesValues (readVariant alternatives) := by
  intro s b r h
  unfold readVariant at h
  split at h
  · cases h
  · next hblank =>
    split at h
    · cases h
    next hstring =>
    split at h
    · cases h
    cases h
    obtain ⟨symbols, hsymbols⟩ := readString_eq_ok hstring
    exact ⟨.string symbols, by rw [Json.tokens]; exact heads_token (hblank.trans (congrArg _ hsymbols))⟩
  · next hblank =>
    unfold readContent at h
    split at h
    · cases h
    next hkey =>
    split at h
    · cases h
    split at h
    · cases h
    next hcolon =>
    split at h
    · cases h
    next hvalue =>
    obtain ⟨key, hkey⟩ := readKey_eq_ok hkey
    obtain ⟨v, hv⟩ := hcontent _ _ _ _ hvalue
    have hopening : Heads [['{']] s _ := heads_token hblank
    have hmember := hkey.trans ((skipColon_eq_ok hcolon).trans (hv.trans (readClosing_eq_ok h)))
    refine ⟨.object [(key, v)], ?_⟩
    rw [Json.tokens, memberTokens, memberTokens]
    exact hopening.trans hmember
  · cases h

theorem takesValues_readVariant_ofNames (all : List α) (name : α → String) :
    TakesValues (readVariant (.ofNames all name)) := by
  refine takesValues_readVariant fun a s b r h => ?_
  unfold Alternatives.ofNames at h
  dsimp only at h
  split at h
  · cases h
  · next hnull =>
    cases h
    exact takesValues_readNull _ _ _ hnull

end

end QpReferee.JsonText

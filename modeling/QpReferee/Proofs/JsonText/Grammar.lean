import QpReferee.Proofs.JsonText.Floats
import QpReferee.Proofs.JsonText.Strings

/-!
# The grammar of values

A value is a tree, its text is the tree's tokens in order, and blanks may stand between any two of them. The
grammar mentions no reader. Every text of it is skipped, whatever brackets are open around it: its numbers may
be of any size, its strings need not have a meaning, and its depth does not matter.

* `Json`, `Json.tokens` : values, and the tokens that they are written in.
* `Spaced` : some tokens with blanks between them.
* `Json.skipFrom_value` : a value is skipped inside open brackets.
* `Json.skipValue_spaced` : **every value is skipped, and what follows it is left.**
-/

namespace QpReferee.JsonText

/-- A value as it is written. -/
inductive Json where
  | null
  | bool (b : Bool)
  | number (n : NumberText)
  | string (symbols : List Symbol)
  | list (items : List Json)
  | object (members : List (List Symbol × Json))

/-- A member of an object: its key and its value. -/
abbrev Member := List Symbol × Json

def stringText (symbols : List Symbol) : List Char := '"' :: stringTail symbols

def commaTokens (first : Bool) : List (List Char) := if first then [] else [[',']]

mutual

def Json.tokens : Json → List (List Char)
  | .null => [['n', 'u', 'l', 'l']]
  | .bool b => [writeBool b]
  | .number n => [n.text]
  | .string symbols => [stringText symbols]
  | .list items => ['['] :: itemTokens true items
  | .object members => ['{'] :: memberTokens true members

/-- The tokens of some items and of the end of their list. -/
def itemTokens (first : Bool) : List Json → List (List Char)
  | [] => [[']']]
  | item :: items => commaTokens first ++ (item.tokens ++ itemTokens false items)

/-- The tokens of some members and of the end of their object. -/
def memberTokens (first : Bool) : List Member → List (List Char)
  | [] => [['}']]
  | (key, value) :: members =>
    commaTokens first ++ (stringText key :: [':'] :: (value.tokens ++ memberTokens false members))

end

/-! ## Blanks -/

/-- A text of some tokens with blanks around them. -/
inductive Spaced : List (List Char) → List Char → Prop
  | nil {blanks : List Char} (h : ∀ c ∈ blanks, isBlank c = true) : Spaced [] blanks
  | cons {blanks token text : List Char} {tokens : List (List Char)} (h : ∀ c ∈ blanks, isBlank c = true)
      (rest : Spaced tokens text) : Spaced (token :: tokens) (blanks ++ (token ++ text))

/-- The text of a value, with blanks around its tokens. -/
def Json.Spells (v : Json) (text : String) : Prop := Spaced v.tokens text.toList

variable {c : Char} {token t : List Char} {ts : List (List Char)}

theorem skipBlank_append {blanks : List Char} (h : ∀ c ∈ blanks, isBlank c = true) (s : List Char) :
    skipBlank (blanks ++ s) = skipBlank s :=
  List.dropWhile_append_of_pos h

theorem Spaced.skipBlank_nil (h : Spaced [] t) : skipBlank t = [] := by
  cases h with
  | nil h => rw [← List.append_nil t, skipBlank_append h]; rfl

theorem Spaced.exists_skipBlank (h : Spaced ((c :: token) :: ts) t) (hc : isBlank c = false) :
    ∃ r, skipBlank t = c :: (token ++ r) ∧ Spaced ts r := by
  cases h with
  | cons h rest => exact ⟨_, by rw [skipBlank_append h, List.cons_append, skipBlank_cons hc], rest⟩

theorem spaced_cons (token : List Char) {r : List Char} (h : Spaced ts r) : Spaced (token :: ts) (token ++ r) :=
  .cons (fun _ hc => absurd hc List.not_mem_nil) h

/-- The same blanks may stand in front of every token, so there may be none at all. -/
theorem spaced_flatMap {blanks : List Char} (h : ∀ c ∈ blanks, isBlank c = true) (ts : List (List Char)) :
    Spaced ts (ts.flatMap (blanks ++ ·)) := by
  induction ts with
  | nil => exact .nil fun _ hc => absurd hc List.not_mem_nil
  | cons token ts ih =>
    rw [List.flatMap_cons, List.append_assoc]
    exact .cons h ih

/-- What may follow a value: nothing, a comma, or a closing bracket. -/
inductive Follows : List (List Char) → Prop
  | nil : Follows []
  | cons {c : Char} (h : c = ',' ∨ c = ']' ∨ c = '}') (ts : List (List Char)) : Follows ([c] :: ts)

theorem endsNumber_of_isBlank {blanks : List Char} (h : ∀ c ∈ blanks, isBlank c = true) {s : List Char}
    (hs : EndsNumber s) : EndsNumber (blanks ++ s) := by
  cases blanks with
  | nil => exact hs
  | cons c blanks =>
    have hc := h c List.mem_cons_self
    refine endsNumber_cons ?_
    simp only [isBlank, Bool.or_eq_true, beq_iff_eq] at hc
    rcases hc with ((rfl | rfl) | rfl) | rfl <;> decide

theorem Follows.endsNumber (h : Follows ts) (ht : Spaced ts t) : EndsNumber t := by
  cases h with
  | nil =>
    cases ht with
    | nil hblanks =>
      rw [← List.append_nil t]
      exact endsNumber_of_isBlank hblanks (by rintro c s ⟨⟩)
  | cons hc ts =>
    cases ht with
    | cons hblanks rest =>
      refine endsNumber_of_isBlank hblanks (endsNumber_cons ?_)
      rcases hc with rfl | rfl | rfl <;> decide

theorem follows_itemTokens (items : List Json) (ts : List (List Char)) :
    Follows (itemTokens false items ++ ts) := by
  cases items with
  | nil =>
    rw [itemTokens]
    exact .cons (.inr (.inl rfl)) _
  | cons item items =>
    rw [itemTokens]
    exact .cons (.inl rfl) _

theorem follows_memberTokens (members : List Member) (ts : List (List Char)) :
    Follows (memberTokens false members ++ ts) := by
  rcases members with _ | ⟨⟨key, value⟩, members⟩
  · rw [memberTokens]
    exact .cons (.inr (.inr rfl)) _
  · rw [memberTokens]
    exact .cons (.inl rfl) _

/-- The characters that a value can start with. -/
def Json.Starts : Json → Char → Prop
  | .null, c => c = 'n'
  | .bool b, c => c = if b then 't' else 'f'
  | .number _, c => startsNumber c = true
  | .string _, c => c = '"'
  | .list _, c => c = '['
  | .object _, c => c = '{'

theorem Json.Starts.opens {v : Json} (h : v.Starts c) : isBlank c = false ∧ c ≠ ']' ∧ c ≠ '}' := by
  cases v with
  | null => rw [show c = 'n' from h]; decide
  | bool b => rw [show c = if b then 't' else 'f' from h]; cases b <;> decide
  | number n =>
    exact ⟨isBlank_of_startsNumber h, ne_of_startsNumber h (by decide), ne_of_startsNumber h (by decide)⟩
  | string symbols => rw [show c = '"' from h]; decide
  | list items => rw [show c = '[' from h]; decide
  | object members => rw [show c = '{' from h]; decide

theorem Json.exists_token (v : Json) : ∃ c token ts, v.tokens = (c :: token) :: ts ∧ v.Starts c := by
  cases v with
  | null => exact ⟨_, _, _, by rw [tokens], rfl⟩
  | bool b =>
    cases b
    · exact ⟨'f', _, _, by rw [tokens, writeBool], rfl⟩
    · exact ⟨'t', _, _, by rw [tokens, writeBool], rfl⟩
  | number n =>
    obtain ⟨c, s, hs, hstart⟩ := n.exists_cons
    exact ⟨c, s, [], by rw [tokens, hs], hstart⟩
  | string symbols => exact ⟨_, _, _, by rw [tokens, stringText], rfl⟩
  | list items => exact ⟨_, _, _, by rw [tokens], rfl⟩
  | object members => exact ⟨_, _, _, by rw [tokens], rfl⟩

theorem Json.exists_skipBlank (v : Json) (h : Spaced (v.tokens ++ ts) t) :
    ∃ c s, skipBlank t = c :: s ∧ v.Starts c := by
  obtain ⟨c, token, ts', htokens, hstarts⟩ := v.exists_token
  rw [htokens, List.cons_append] at h
  obtain ⟨r, hblank, -⟩ := h.exists_skipBlank hstarts.opens.1
  exact ⟨c, _, hblank, hstarts⟩

/-! ## The steps of a skip -/

section

variable {bracket : Bracket} {brackets : List Bracket} {s r : List Char}

theorem skipFrom_atom (h : skipToken s = .ok (none, r)) :
    skipFrom .value brackets s = skipFrom .after brackets r := by
  rw [skipFrom]
  split
  · next heq => rw [h] at heq; cases heq
  · next heq => rw [h] at heq; cases heq; rfl
  · next heq => rw [h] at heq; cases heq

theorem skipFrom_open (h : skipToken s = .ok (some bracket, r)) :
    skipFrom .value brackets s = skipFrom .opened (bracket :: brackets) r := by
  rw [skipFrom]
  split
  · next heq => rw [h] at heq; cases heq
  · next heq => rw [h] at heq; cases heq
  · next heq => rw [h] at heq; cases heq; rfl

theorem skipFrom_opened_closed (h : skipBlank s = bracket.closing :: r) :
    skipFrom .opened (bracket :: brackets) s = skipFrom .after brackets r := by
  rw [skipFrom]
  split
  · next heq => rw [h] at heq; cases heq
  · next heq =>
    rw [h] at heq
    cases heq
    rw [if_pos rfl]

theorem skipFrom_opened_item {item : List Char} (h : skipBlank s = c :: r) (hc : c ≠ bracket.closing)
    (hitem : skipToItem bracket (c :: r) = .ok item) :
    skipFrom .opened (bracket :: brackets) s = skipFrom .value (bracket :: brackets) item := by
  conv_lhs => rw [skipFrom]
  split
  · next heq => rw [h] at heq; cases heq
  · next heq =>
    rw [h] at heq
    cases heq
    rw [if_neg hc]
    split
    · next heq => rw [hitem] at heq; cases heq
    · next heq => rw [hitem] at heq; cases heq; rfl

theorem skipFrom_after_closed (h : skipBlank s = bracket.closing :: r) :
    skipFrom .after (bracket :: brackets) s = skipFrom .after brackets r := by
  rw [skipFrom]
  split
  · next heq => rw [h] at heq; cases heq
  · next heq =>
    rw [h] at heq
    cases heq
    rw [if_pos rfl]

theorem skipFrom_after_item {item : List Char} (h : skipBlank s = ',' :: r)
    (hitem : skipToItem bracket r = .ok item) :
    skipFrom .after (bracket :: brackets) s = skipFrom .value (bracket :: brackets) item := by
  have hc : ',' ≠ bracket.closing := by cases bracket <;> decide
  conv_lhs => rw [skipFrom]
  split
  · next heq => rw [h] at heq; cases heq
  · next heq =>
    rw [h] at heq
    cases heq
    rw [if_neg hc, if_pos rfl]
    split
    · next heq => rw [hitem] at heq; cases heq
    · next heq => rw [hitem] at heq; cases heq; rfl

end

theorem readLiteral_append (literal r : List Char) : readLiteral literal (literal ++ r) = .ok r := by
  induction literal with
  | nil => rfl
  | cons c literal ih => rw [List.cons_append, readLiteral, if_pos rfl, ih]

theorem skipColon_spaced (h : Spaced ([':'] :: ts) t) : ∃ r, skipColon t = .ok r ∧ Spaced ts r := by
  obtain ⟨r, hblank, hr⟩ := h.exists_skipBlank (by decide)
  refine ⟨r, ?_, hr⟩
  rw [skipColon, hblank]
  exact if_pos rfl

theorem skipKey_spaced {key : List Symbol} (h : Spaced (stringText key :: [':'] :: ts) t) :
    ∃ r, skipKey t = .ok r ∧ Spaced ts r := by
  obtain ⟨s, hblank, hs⟩ := h.exists_skipBlank (by decide)
  obtain ⟨r, hcolon, hr⟩ := skipColon_spaced hs
  refine ⟨r, ?_, hr⟩
  rw [skipKey, hblank]
  dsimp only
  rw [if_pos rfl, skipString_symbols]
  exact hcolon

/-! ## Skipping -/

section

variable {s r : List Char}

theorem skipToken_atom (h : skipBlank t = c :: s) (hlist : c ≠ '[') (hobject : c ≠ '{')
    (hatom : skipAtom (c :: s) = .ok r) : skipToken t = .ok (none, r) := by
  unfold skipToken
  rw [h]
  split
  · next heq => exact absurd (List.cons.inj heq).1 hlist
  · next heq => exact absurd (List.cons.inj heq).1 hobject
  · rw [hatom]

theorem skipAtom_number (n : NumberText) (hr : EndsNumber r) : skipAtom (n.text ++ r) = .ok r := by
  obtain ⟨c, s, hs, hstart⟩ := n.exists_cons
  have hscan : scanNumeral .malformed (n.text ++ r) = _ := n.scanNumeral_text hr
  have hnumber : c = '-' ∨ c.isDigit = true := by
    simpa only [startsNumber, Bool.or_eq_true, beq_iff_eq] using hstart
  rw [hs, List.cons_append] at hscan ⊢
  rw [skipAtom]
  · rw [if_pos hnumber, hscan]
  · exact fun heq => ne_of_startsNumber hstart (by decide) heq
  · exact fun heq => ne_of_startsNumber hstart (by decide) heq
  · exact fun heq => ne_of_startsNumber hstart (by decide) heq
  · exact fun heq => ne_of_startsNumber hstart (by decide) heq

end

theorem skipFrom_token (brackets : List Bracket) (h : Spaced ((c :: token) :: ts) t)
    (hc : isBlank c = false ∧ c ≠ '[' ∧ c ≠ '{')
    (hatom : ∀ r, Spaced ts r → skipAtom (c :: (token ++ r)) = .ok r) :
    ∃ r, Spaced ts r ∧ skipFrom .value brackets t = skipFrom .after brackets r := by
  obtain ⟨r, hblank, hr⟩ := h.exists_skipBlank hc.1
  exact ⟨r, hr, skipFrom_atom (skipToken_atom hblank hc.2.1 hc.2.2 (hatom r hr))⟩

def Bracket.opening : Bracket → Char
  | .list => '['
  | .object => '{'

theorem skipFrom_opening (bracket : Bracket) (brackets : List Bracket)
    (h : Spaced ([bracket.opening] :: ts) t) :
    ∃ r, Spaced ts r ∧ skipFrom .value brackets t = skipFrom .opened (bracket :: brackets) r := by
  obtain ⟨r, hblank, hr⟩ := h.exists_skipBlank (by cases bracket <;> decide)
  refine ⟨r, hr, skipFrom_open ?_⟩
  unfold skipToken
  rw [hblank]
  cases bracket <;> rfl

def itemPosition (first : Bool) : Position := if first then .opened else .after

section

variable (first : Bool) {bracket : Bracket} (brackets : List Bracket)

theorem skipFrom_closing (h : Spaced ([bracket.closing] :: ts) t) :
    ∃ r, Spaced ts r ∧
      skipFrom (itemPosition first) (bracket :: brackets) t = skipFrom .after brackets r := by
  obtain ⟨r, hblank, hr⟩ := h.exists_skipBlank (by cases bracket <;> decide)
  refine ⟨r, hr, ?_⟩
  cases first with
  | true => exact skipFrom_opened_closed hblank
  | false => exact skipFrom_after_closed hblank

theorem skipFrom_item (hc : isBlank c = false) (hclosing : c ≠ bracket.closing)
    (h : Spaced (commaTokens first ++ (c :: token) :: ts) t) :
    ∃ s, Spaced ((c :: token) :: ts) s ∧ ∀ item, skipToItem bracket s = .ok item →
      skipFrom (itemPosition first) (bracket :: brackets) t = skipFrom .value (bracket :: brackets) item := by
  cases first with
  | true =>
    obtain ⟨r, hblank, hr⟩ := Spaced.exists_skipBlank (show Spaced ((c :: token) :: ts) t from h) hc
    exact ⟨_, spaced_cons (c :: token) hr, fun item hitem => skipFrom_opened_item hblank hclosing hitem⟩
  | false =>
    obtain ⟨r, hblank, hr⟩ := Spaced.exists_skipBlank (show Spaced ([','] :: (c :: token) :: ts) t from h)
      (by decide)
    exact ⟨r, hr, fun item hitem => skipFrom_after_item hblank hitem⟩

end

mutual

/-- A value is skipped, whatever brackets are open around it. -/
theorem Json.skipFrom_value (v : Json) (brackets : List Bracket) {ts : List (List Char)} {t : List Char}
    (hts : Follows ts) (h : Spaced (v.tokens ++ ts) t) :
    ∃ r, Spaced ts r ∧ skipFrom .value brackets t = skipFrom .after brackets r := by
  cases v with
  | null =>
    rw [Json.tokens, List.singleton_append] at h
    exact skipFrom_token brackets h (by decide) fun r _ => readLiteral_append _ r
  | bool b =>
    rw [Json.tokens, List.singleton_append] at h
    cases b with
    | true => exact skipFrom_token brackets h (by decide) fun r _ => readLiteral_append _ r
    | false => exact skipFrom_token brackets h (by decide) fun r _ => readLiteral_append _ r
  | number n =>
    obtain ⟨c, s, hs, hstart⟩ := n.exists_cons
    rw [Json.tokens, List.singleton_append, hs] at h
    refine skipFrom_token brackets h ⟨isBlank_of_startsNumber hstart, ne_of_startsNumber hstart (by decide),
      ne_of_startsNumber hstart (by decide)⟩ fun r hr => ?_
    rw [← List.cons_append, ← hs]
    exact skipAtom_number n (hts.endsNumber hr)
  | string symbols =>
    rw [Json.tokens, List.singleton_append] at h
    exact skipFrom_token brackets h (by decide) fun r _ => skipString_symbols symbols r
  | list items =>
    rw [Json.tokens, List.cons_append] at h
    obtain ⟨s, hs, hopen⟩ := skipFrom_opening .list brackets h
    obtain ⟨r, hr, hskip⟩ := skipFrom_items items true brackets hs
    exact ⟨r, hr, hopen.trans hskip⟩
  | object members =>
    rw [Json.tokens, List.cons_append] at h
    obtain ⟨s, hs, hopen⟩ := skipFrom_opening .object brackets h
    obtain ⟨r, hr, hskip⟩ := skipFrom_members members true brackets hs
    exact ⟨r, hr, hopen.trans hskip⟩

theorem skipFrom_items (items : List Json) (first : Bool) (brackets : List Bracket) {ts : List (List Char)}
    {t : List Char} (h : Spaced (itemTokens first items ++ ts) t) :
    ∃ r, Spaced ts r ∧
      skipFrom (itemPosition first) (.list :: brackets) t = skipFrom .after brackets r := by
  cases items with
  | nil =>
    rw [itemTokens] at h
    exact skipFrom_closing first brackets h
  | cons item items =>
    obtain ⟨c, token, ts', htokens, hstarts⟩ := item.exists_token
    obtain ⟨hblank, hclosing, -⟩ := hstarts.opens
    rw [itemTokens, htokens, List.append_assoc, List.append_assoc, List.cons_append] at h
    have hclosing : c ≠ Bracket.list.closing := hclosing
    obtain ⟨s, hs, hskip⟩ := skipFrom_item first brackets hblank hclosing h
    rw [← List.cons_append, ← htokens] at hs
    obtain ⟨q, hq, hvalue⟩ := item.skipFrom_value (.list :: brackets) (follows_itemTokens items ts) hs
    obtain ⟨r, hr, hrest⟩ := skipFrom_items items false brackets hq
    exact ⟨r, hr, (hskip s rfl).trans (hvalue.trans hrest)⟩

theorem skipFrom_members (members : List Member) (first : Bool) (brackets : List Bracket)
    {ts : List (List Char)} {t : List Char} (h : Spaced (memberTokens first members ++ ts) t) :
    ∃ r, Spaced ts r ∧
      skipFrom (itemPosition first) (.object :: brackets) t = skipFrom .after brackets r := by
  match members with
  | [] =>
    rw [memberTokens] at h
    exact skipFrom_closing first brackets h
  | (key, value) :: members =>
    rw [memberTokens, List.append_assoc, List.cons_append, List.cons_append, List.append_assoc] at h
    have hclosing : '"' ≠ Bracket.object.closing := by decide
    obtain ⟨s, hs, hskip⟩ := skipFrom_item first brackets (by decide) hclosing h
    obtain ⟨p, hkey, hp⟩ := skipKey_spaced hs
    obtain ⟨q, hq, hvalue⟩ := value.skipFrom_value (.object :: brackets) (follows_memberTokens members ts) hp
    obtain ⟨r, hr, hrest⟩ := skipFrom_members members false brackets hq
    exact ⟨r, hr, (hskip p hkey).trans (hvalue.trans hrest)⟩

end

/-- **Every value is skipped, and what follows it is left.** -/
theorem Json.skipValue_spaced (v : Json) (hts : Follows ts) (h : Spaced (v.tokens ++ ts) t) :
    ∃ r, skipValue t = .ok r ∧ Spaced ts r := by
  obtain ⟨r, hr, hskip⟩ := v.skipFrom_value [] hts h
  refine ⟨r, ?_, hr⟩
  rw [skipValue, hskip, skipFrom]
  rintro ⟨⟩

end QpReferee.JsonText

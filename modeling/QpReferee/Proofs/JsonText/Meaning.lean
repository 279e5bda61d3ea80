import QpReferee.Proofs.JsonText.Grammar

/-!
# What values mean to their readers

A reader of one type gives every value of the grammar a meaning or none. If it gives one, it reads the value
whole and stops in front of the tokens behind it; if it gives none, it fails. So what is read depends on the
tree alone: neither the blanks between its tokens nor what stands behind it matter.

* `Gives`, `ReadsAs` : a result against a meaning, and a reader against the meanings of all values.
* `readsAs_readBool`, `readsAs_readFloat`, `ReadsAs.readOptional` : plain values.
* `readsAs_readVariant` : **a name, by itself or as the key of nothing.**
-/

namespace QpReferee.JsonText

/-- A result is what a value means, in front of some tokens; a value without a meaning is refused. -/
def Gives {α : Type} (result : Read α) (meaning : Option α) (ts : List (List Char)) : Prop :=
  match meaning with
  | none => ∃ e, result = .error e
  | some a => ∃ r, result = .ok (a, r) ∧ Spaced ts r

/-- What a reader gives is what values mean, wherever they stand. -/
def ReadsAs {α : Type} (read : List Char → Read α) (meaning : Json → Option α) : Prop :=
  ∀ (v : Json) (ts : List (List Char)) (t : List Char), Follows ts → Spaced (v.tokens ++ ts) t →
    Gives (read t) (meaning v) ts

section

variable {α β : Type} {ts : List (List Char)} {t s : List Char} {c : Char}

theorem gives_error {result : Read α} {e : Error} (h : result = .error e) : Gives result none ts := ⟨e, h⟩

theorem Gives.elim {result : Read α} {meaning : Option α} (h : Gives result meaning ts) :
    (meaning = none ∧ ∃ e, result = .error e) ∨
      ∃ a r, meaning = some a ∧ result = .ok (a, r) ∧ Spaced ts r := by
  cases meaning with
  | none => exact .inl ⟨rfl, h⟩
  | some a =>
    obtain ⟨r, hresult, hr⟩ := h
    exact .inr ⟨a, r, rfl, hresult, hr⟩

theorem Gives.map {result : Read α} {meaning : Option α} (f : α → β) (h : Gives result meaning ts) :
    Gives (result.map fun p => (f p.1, p.2)) (meaning.map f) ts := by
  rcases h.elim with ⟨rfl, e, rfl⟩ | ⟨a, r, rfl, rfl, hr⟩
  · exact ⟨e, rfl⟩
  · exact ⟨r, rfl, hr⟩

/-! ## Truth values and numbers -/

def Json.toBool? : Json → Option Bool
  | .bool b => some b
  | _ => none

theorem readBool_error (h : skipBlank t = c :: s) (ht : c ≠ 't') (hf : c ≠ 'f') :
    readBool t = .error (unexpected (c :: s)) := by
  unfold readBool
  rw [h]
  split
  · next heq => exact absurd (List.cons.inj heq).1 ht
  · next heq => exact absurd (List.cons.inj heq).1 hf
  · rfl

theorem readConstant_append (literal r : List Char) (a : α) :
    readConstant literal a (literal ++ r) = .ok (a, r) := by
  rw [readConstant, readLiteral_append]

theorem readsAs_readBool : ReadsAs readBool Json.toBool? := by
  intro v ts t hts h
  obtain ⟨c, s, hblank, hstarts⟩ := v.exists_skipBlank h
  cases v with
  | bool b =>
    rw [Json.tokens, List.singleton_append] at h
    cases b with
    | true =>
      obtain ⟨r, hblank, hr⟩ := h.exists_skipBlank (by decide)
      refine ⟨r, ?_, hr⟩
      unfold readBool
      rw [hblank]
      exact readConstant_append _ r true
    | false =>
      obtain ⟨r, hblank, hr⟩ := h.exists_skipBlank (by decide)
      refine ⟨r, ?_, hr⟩
      unfold readBool
      rw [hblank]
      exact readConstant_append _ r false
  | number n =>
    exact gives_error (readBool_error hblank (ne_of_startsNumber hstarts (by decide))
      (ne_of_startsNumber hstarts (by decide)))
  | null | string | list | object =>
    rw [Json.Starts] at hstarts
    subst hstarts
    exact gives_error (readBool_error hblank (by decide) (by decide))

/-- A number that is not in range means nothing. -/
def Json.toFloat? : Json → Option Float
  | .number n => if n.numeral.magnitude = BinaryFormat.binary64.infinity then none else some n.numeral.toFloat
  | _ => none

theorem readFloat_error (h : skipBlank t = c :: s) (hc : startsNumber c = false) :
    readFloat t = .error (unexpected (c :: s)) := by
  unfold readFloat readNumber
  rw [h]
  dsimp only
  rw [hc]
  rfl

theorem readFloat_skipBlank (t : List Char) : readFloat (skipBlank t) = readFloat t := by
  unfold readFloat readNumber skipBlank
  rw [List.dropWhile_idempotent]

theorem readsAs_readFloat : ReadsAs readFloat Json.toFloat? := by
  intro v ts t hts h
  obtain ⟨c, s, hblank, hstarts⟩ := v.exists_skipBlank h
  cases v with
  | number n =>
    obtain ⟨d, token, htext, hstart⟩ := n.exists_cons
    rw [Json.tokens, List.singleton_append, htext] at h
    obtain ⟨r, hblank, hr⟩ := h.exists_skipBlank (isBlank_of_startsNumber hstart)
    have hread := readFloat_text n (hts.endsNumber hr)
    rw [htext, List.cons_append, ← hblank, readFloat_skipBlank] at hread
    rw [Json.toFloat?]
    split_ifs with hrange
    · rw [if_pos hrange] at hread
      exact gives_error hread
    · rw [if_neg hrange] at hread
      exact ⟨r, hread, hr⟩
  | bool b =>
    rw [Json.Starts] at hstarts
    subst hstarts
    exact gives_error (readFloat_error hblank (by cases b <;> decide))
  | null | string | list | object =>
    rw [Json.Starts] at hstarts
    subst hstarts
    exact gives_error (readFloat_error hblank (by decide))

/-! ## Nothing, or a value -/

def Json.toUnit? : Json → Option Unit
  | .null => some ()
  | _ => none

theorem readNull_error (h : skipBlank t = c :: s) (hn : c ≠ 'n') :
    readNull t = .error (unexpected (c :: s)) := by
  unfold readNull
  rw [h]
  split
  · next heq => exact absurd (List.cons.inj heq).1 hn
  · rfl

theorem Json.Starts.ne_n {v : Json} (h : v.Starts c) (hv : v ≠ .null) : c ≠ 'n' := by
  cases v with
  | null => exact absurd rfl hv
  | bool b => rw [show c = if b then 't' else 'f' from h]; cases b <;> decide
  | number n => exact ne_of_startsNumber h (by decide)
  | string | list | object =>
    rw [Json.Starts] at h
    subst h
    decide

theorem exists_skipBlank_null (h : Spaced (Json.null.tokens ++ ts) t) :
    ∃ r, skipBlank t = 'n' :: (['u', 'l', 'l'] ++ r) ∧ Spaced ts r := by
  rw [Json.tokens, List.singleton_append] at h
  exact h.exists_skipBlank (by decide)

theorem readsAs_readNull : ReadsAs readNull Json.toUnit? := by
  intro v ts t hts h
  by_cases hv : v = .null
  · subst hv
    obtain ⟨r, hblank, hr⟩ := exists_skipBlank_null h
    refine ⟨r, ?_, hr⟩
    unfold readNull
    rw [hblank]
    exact readConstant_append _ r ()
  · obtain ⟨c, s, hblank, hstarts⟩ := v.exists_skipBlank h
    have hnone : v.toUnit? = none := by
      cases v <;> first | exact absurd rfl hv | rfl
    rw [hnone]
    exact gives_error (readNull_error hblank (hstarts.ne_n hv))

def Json.toOption? (meaning : Json → Option α) : Json → Option (Option α)
  | .null => some none
  | v => (meaning v).map some

theorem ReadsAs.readOptional {read : List Char → Read α} {meaning : Json → Option α} (h : ReadsAs read meaning)
    (hblank : ∀ t, read (skipBlank t) = read t) :
    ReadsAs (JsonText.readOptional read) (Json.toOption? meaning) := by
  intro v ts t hts hspaced
  by_cases hv : v = .null
  · subst hv
    obtain ⟨r, hskip, hr⟩ := exists_skipBlank_null hspaced
    refine ⟨r, ?_, hr⟩
    unfold JsonText.readOptional
    rw [hskip]
    exact readConstant_append _ r none
  · obtain ⟨c, s, hskip, hstarts⟩ := v.exists_skipBlank hspaced
    have hsome : Json.toOption? meaning v = (meaning v).map some := by
      cases v <;> first | exact absurd rfl hv | rfl
    have hread : JsonText.readOptional read t = (read t).map fun p => (some p.1, p.2) := by
      rw [← hblank t]
      unfold JsonText.readOptional
      rw [hskip]
      split
      · next heq => exact absurd (List.cons.inj heq).1 (hstarts.ne_n hv)
      · cases read (c :: s) <;> rfl
    rw [hsome, hread]
    exact (h v ts t hts hspaced).map some

theorem readBool_skipBlank (t : List Char) : readBool (skipBlank t) = readBool t := by
  unfold readBool skipBlank
  rw [List.dropWhile_idempotent]

/-! ## Names -/

theorem gives_readString (symbols : List Symbol) (hs : Spaced ts s) :
    Gives (readString (stringTail symbols ++ s)) (Symbol.decode symbols) ts := by
  have hread := readString_symbols symbols s
  generalize readString (stringTail symbols ++ s) = result at hread ⊢
  generalize Symbol.decode symbols = meaning at hread ⊢
  cases result with
  | error e =>
    cases meaning with
    | none => exact ⟨e, rfl⟩
    | some cs => cases hread
  | ok p =>
    cases meaning with
    | none => cases hread
    | some cs =>
      cases hread
      exact ⟨s, rfl, hs⟩

theorem gives_readKey {key : List Symbol} (h : Spaced (stringText key :: ts) t) :
    Gives (readKey t) (Symbol.decode key) ts := by
  obtain ⟨r, hblank, hr⟩ := h.exists_skipBlank (by decide)
  unfold readKey
  rw [hblank]
  exact gives_readString key hr

theorem readClosing_spaced (a : α) (h : Spaced (['}'] :: ts) t) :
    ∃ r, readClosing a t = .ok (a, r) ∧ Spaced ts r := by
  obtain ⟨r, hblank, hr⟩ := h.exists_skipBlank (by decide)
  refine ⟨r, ?_, hr⟩
  unfold readClosing
  rw [hblank]
  exact if_pos rfl

def nameOf? (all : List α) (name : α → String) (text : List Char) : Option α :=
  all.find? fun a => (name a).toList == text

/-- The alternative that a value names, by itself or as the key of nothing. -/
def Json.toName? (all : List α) (name : α → String) : Json → Option α
  | .string symbols => (Symbol.decode symbols).bind (nameOf? all name)
  | .object [(key, value)] => value.toUnit?.bind fun _ => (Symbol.decode key).bind (nameOf? all name)
  | _ => none

variable (all : List α) (name : α → String)

theorem toName?_object_none {key : List Symbol} {value : Json} (members : List Member)
    (h : value.toUnit? = none ∨ (Symbol.decode key).bind (nameOf? all name) = none) :
    Json.toName? all name (.object ((key, value) :: members)) = none := by
  cases members with
  | cons => rfl
  | nil =>
    rw [Json.toName?]
    rcases h with h | h
    · rw [h]
      rfl
    · rw [h]
      cases value.toUnit? <;> rfl

section

variable {all name} {text r q p : List Char} {a : α} {e : Error}

theorem readContent_unnamed (hkey : readKey t = .ok (text, r)) (hname : nameOf? all name text = none) :
    readContent (.ofNames all name) t = .error .mismatch := by
  have hnamed : (Alternatives.ofNames all name).named text = none := hname
  simp only [readContent, hkey, hnamed]

variable (hkey : readKey t = .ok (text, r)) (hname : nameOf? all name text = some a)
  (hcolon : skipColon r = .ok q)

include hkey hname hcolon

theorem readContent_refused (hnull : readNull q = .error e) :
    readContent (.ofNames all name) t = .error e := by
  have hnamed : (Alternatives.ofNames all name).named text = some a := hname
  have hcontent : (Alternatives.ofNames all name).content a q = .error e := by
    simp only [Alternatives.ofNames, hnull]
  simp only [readContent, hkey, hnamed, hcolon, hcontent]

theorem readContent_closing {u : Unit} (hnull : readNull q = .ok (u, p)) :
    readContent (.ofNames all name) t = readClosing a p := by
  have hnamed : (Alternatives.ofNames all name).named text = some a := hname
  have hcontent : (Alternatives.ofNames all name).content a q = .ok (a, p) := by
    simp only [Alternatives.ofNames, hnull]
  simp only [readContent, hkey, hnamed, hcolon, hcontent]

end

theorem gives_readContent (members : List Member) (h : Spaced (memberTokens true members ++ ts) t) :
    Gives (readContent (.ofNames all name) t) (Json.toName? all name (.object members)) ts := by
  match members with
  | [] =>
    rw [memberTokens] at h
    obtain ⟨r, hblank, -⟩ := h.exists_skipBlank (by decide)
    refine gives_error (e := .malformed) ?_
    unfold readContent readKey
    rw [hblank]
    rfl
  | (key, value) :: members =>
    rw [memberTokens, List.append_assoc, List.cons_append, List.cons_append, List.append_assoc] at h
    rcases (gives_readKey h).elim with ⟨hkey, e, hread⟩ | ⟨text, r, hkey, hread, hr⟩
    · rw [toName?_object_none all name members (.inr (by rw [hkey]; rfl))]
      exact gives_error (e := e) (by simp only [readContent, hread])
    · cases hname : nameOf? all name text with
      | none =>
        rw [toName?_object_none all name members (.inr (by rw [hkey]; exact hname))]
        exact gives_error (readContent_unnamed hread hname)
      | some a =>
        obtain ⟨q, hcolon, hq⟩ := skipColon_spaced hr
        rcases (readsAs_readNull value _ q (follows_memberTokens members ts) hq).elim with
          ⟨hvalue, e, hnull⟩ | ⟨u, p, hvalue, hnull, hp⟩
        · rw [toName?_object_none all name members (.inl hvalue)]
          exact gives_error (readContent_refused hread hname hcolon hnull)
        · rw [readContent_closing hread hname hcolon hnull]
          cases members with
          | nil =>
            rw [memberTokens] at hp
            rw [Json.toName?, hvalue, hkey, Option.bind_some, Option.bind_some, hname]
            exact readClosing_spaced a hp
          | cons member members =>
            rw [memberTokens] at hp
            obtain ⟨s, hblank, -⟩ := Spaced.exists_skipBlank (c := ',') hp (by decide)
            refine gives_error (e := .malformed) ?_
            unfold readClosing
            rw [hblank]
            rfl

theorem readsAs_readVariant : ReadsAs (readVariant (.ofNames all name)) (Json.toName? all name) := by
  intro v ts t hts h
  obtain ⟨c, s, hblank, hstarts⟩ := v.exists_skipBlank h
  have hrefused (hquote : c ≠ '"') (hbrace : c ≠ '{') :
      Gives (readVariant (.ofNames all name) t) none ts := by
    refine gives_error (e := .malformed) ?_
    unfold readVariant
    rw [hblank]
    split
    · next heq => cases heq
    · next heq => exact absurd (List.cons.inj heq).1 hquote
    · next heq => exact absurd (List.cons.inj heq).1 hbrace
    · rfl
  cases v with
  | string symbols =>
    rw [Json.tokens, List.singleton_append] at h
    obtain ⟨r, hblank, hr⟩ := h.exists_skipBlank (by decide)
    rcases (gives_readString symbols hr).elim with ⟨hdecode, e, hread⟩ | ⟨text, q, hdecode, hread, hq⟩
    · rw [Json.toName?, hdecode]
      exact gives_error (e := e) (by simp only [readVariant, hblank, hread])
    · have hnamed : (Alternatives.ofNames all name).named text = nameOf? all name text := rfl
      have hbare : (Alternatives.ofNames all name).bare = some := rfl
      rw [Json.toName?, hdecode, Option.bind_some]
      cases hname : nameOf? all name text with
      | none =>
        rw [hname] at hnamed
        exact gives_error (e := .mismatch) (by simp only [readVariant, hblank, hread, hnamed, Option.bind_none])
      | some a =>
        rw [hname] at hnamed
        exact ⟨q, by simp only [readVariant, hblank, hread, hnamed, hbare, Option.bind_some], hq⟩
  | object members =>
    rw [Json.tokens, List.cons_append] at h
    obtain ⟨r, hblank, hr⟩ := h.exists_skipBlank (by decide)
    unfold readVariant
    rw [hblank]
    exact gives_readContent all name members hr
  | number n => exact hrefused (ne_of_startsNumber hstarts (by decide)) (ne_of_startsNumber hstarts (by decide))
  | bool b =>
    rw [Json.Starts] at hstarts
    subst hstarts
    exact hrefused (by cases b <;> decide) (by cases b <;> decide)
  | null | list =>
    rw [Json.Starts] at hstarts
    subst hstarts
    exact hrefused (by decide) (by decide)

end

end QpReferee.JsonText

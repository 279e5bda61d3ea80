import QpReferee.Proofs.JsonText.Cut
import QpReferee.Proofs.JsonText.Meaning
import QpReferee.Proofs.JsonText.Parsed
import QpReferee.Proofs.Text.Utf8

/-!
# What a document relies on

Everything that the rest may know of how single values are written and read. How many digits a number has and
where it gets an exponent, which class a fault in a value is of, and which texts beyond those that are written are
read at all, is settled here and in the modules below; another format of numbers with the same laws changes
nothing above.

* `Conveys`, `Delimits` : what a text has to be to stand for a value of a document.
* `Understands` : what a reader has to be to take any value for what it means.
* `conveys_bool`, `conveys_number`, `delimits_name`, `delimits_key` : **the texts that are written.**
* `understands_bool`, `understands_number`, `understands_name` : **the readers of settings.**
-/

namespace QpReferee.JsonText

open Utf8

variable {α β : Type}

/-! ## The laws -/

/-- A text stands for a value: it is read as that value and no further, unless what follows goes on as a number
could; a reader of a proper beginning comes to its end; and every character takes one byte. -/
structure Conveys (read : List Char → Read α) (text : List Char) (a : α) : Prop where
  reads : ∀ {rest : List Char}, EndsNumber rest → read (text ++ rest) = .ok (a, rest)
  cut : ∀ {p : List Char}, IsCut p text → ReachesEnd (read p)
  oneByte : OneByte text

/-- A text stands for a value and shows where it ends, so whatever may follow, and a proper beginning is known to
be one. -/
structure Delimits (read : List Char → Read α) (text : List Char) (a : α) : Prop where
  reads : ∀ rest : List Char, read (text ++ rest) = .ok (a, rest)
  cut : ∀ {p : List Char}, IsCut p text → read p = .error .truncated
  oneByte : OneByte text

/-- A reader takes every value for what it means, wherever it stands, and nothing that is no value. -/
structure Understands (read : List Char → Read α) (meaning : Json → Option α) : Prop where
  reads : ReadsAs read meaning
  takes : TakesValues read

section

variable {read : List Char → Read α} {read' : List Char → Read β} {text : List Char} {a : α}
  {meaning : Json → Option α}

theorem Delimits.conveys (h : Delimits read text a) : Conveys read text a where
  reads {rest} _ := h.reads rest
  cut hp := .inl (h.cut hp)
  oneByte := h.oneByte

theorem ReachesEnd.map {result : Read α} (h : ReachesEnd result) (f : α → β) :
    ReachesEnd (result.map fun p => (f p.1, p.2)) := by
  rcases h with rfl | ⟨a, rfl⟩
  · exact .inl rfl
  · exact .inr ⟨f a, rfl⟩

theorem Conveys.map (h : Conveys read text a) (f : α → β)
    (hread : ∀ t, read' t = (read t).map fun p => (f p.1, p.2)) : Conveys read' text (f a) where
  reads hrest := by
    rw [hread, h.reads hrest]
    rfl
  cut hp := by
    rw [hread]
    exact (h.cut hp).map f
  oneByte := h.oneByte

theorem Understands.map (h : Understands read meaning) (f : α → β)
    (hread : ∀ t, read' t = (read t).map fun p => (f p.1, p.2)) : Understands read' fun v => (meaning v).map f where
  reads v ts t hts ht := by
    rw [hread]
    exact (h.reads v ts t hts ht).map f
  takes s b r hb := by
    rw [hread] at hb
    cases hs : read s with
    | error e =>
      rw [hs] at hb
      cases hb
    | ok p =>
      rw [hs] at hb
      cases hb
      exact h.takes s p.1 p.2 hs

theorem Conveys.optional (h : Conveys read text a) (hnil : read [] = .error .truncated)
    (hstart : ∃ c s, text = c :: s ∧ isBlank c = false ∧ c ≠ 'n') : Conveys (readOptional read) text (some a) where
  reads hrest := by
    have hread := h.reads hrest
    obtain ⟨c, s, rfl, hblank, hn⟩ := hstart
    exact readOptional_some hblank hn hread
  cut hp := readOptional_cut hnil hstart hp (h.cut hp)
  oneByte := h.oneByte

theorem delimits_null (hnil : read [] = .error .truncated) :
    Delimits (readOptional read) ['n', 'u', 'l', 'l'] none where
  reads _ := rfl
  cut hp := readOptional_cut_null hnil hp
  oneByte := by decide

end

/-! ## Truth values -/

theorem conveys_bool (value : Option Bool) : Conveys (readOptional readBool) (writeOptional writeBool value) value := by
  cases value with
  | none => exact (delimits_null rfl).conveys
  | some b =>
    have hdelimits : Delimits readBool (writeBool b) b := {
      reads := fun rest => by cases b <;> rfl
      cut := readBool_cut b
      oneByte := by cases b <;> decide }
    refine hdelimits.conveys.optional rfl ?_
    cases b
    · exact ⟨'f', _, rfl, by decide, by decide⟩
    · exact ⟨'t', _, rfl, by decide, by decide⟩

theorem understands_bool : Understands (readOptional readBool) (Json.toOption? Json.toBool?) where
  reads := readsAs_readBool.readOptional readBool_skipBlank
  takes := takesValues_readBool.readOptional

/-! ## Numbers -/

theorem utf8Size_of_isDigit {c : Char} (h : c.isDigit = true) : c.utf8Size = 1 := by
  have hcode : c.val.toNat ≤ 57 := (toNat_of_isDigit h).2
  rw [Char.utf8Size_eq_one_iff, UInt32.le_iff_toNat_le]
  exact hcode.trans (by decide)

theorem oneByte_of_isDigit {ds : List Char} (h : ∀ c ∈ ds, c.isDigit = true) : OneByte ds :=
  fun c hc => utf8Size_of_isDigit (h c hc)

theorem ExponentText.oneByte_text (x : ExponentText) : OneByte x.text := by
  have hmark : x.mark.utf8Size = 1 := by
    have h := x.isMark
    simp only [isExponentMark, Bool.or_eq_true, beq_iff_eq] at h
    rcases h with h | h <;> rw [h] <;> decide
  have hsign : OneByte (signText x.sign) := by
    rcases x.sign with _ | _ | _ <;> decide
  exact oneByte_cons.mpr ⟨hmark, oneByte_append.mpr ⟨hsign, oneByte_of_isDigit x.isDigit⟩⟩

theorem NumberText.oneByte_text (w : NumberText) : OneByte w.text := by
  have hsign : OneByte (if w.negative then ['-'] else []) := by
    split_ifs <;> decide
  have hfraction : OneByte (fractionText w.fraction) := by
    intro c hc
    rcases mem_fractionText hc with rfl | hdigit
    · rfl
    · exact utf8Size_of_isDigit (w.isDigit c hdigit)
  have hexponent : OneByte w.exponentText := by
    unfold UnsignedText.exponentText
    cases w.exponent with
    | none => exact oneByte_nil
    | some x => exact x.oneByte_text
  have hunsigned : OneByte w.toUnsignedText.text :=
    oneByte_append.mpr ⟨oneByte_of_isDigit w.isWhole.isDigit, oneByte_append.mpr ⟨hfraction, hexponent⟩⟩
  exact oneByte_append.mpr ⟨hsign, hunsigned⟩

/-- A number that may be missing comes back if it is finite, and is missing otherwise. -/
theorem conveys_number (value : Option Float) :
    Conveys (readOptional readFloat) (writeOptional writeNumber value) (value.filter Float.isFinite) := by
  cases value with
  | none => exact (delimits_null rfl).conveys
  | some x =>
    unfold writeOptional
    dsimp only
    by_cases hfinite : x.isFinite = true
    · obtain ⟨w, htext, hmoderate, -⟩ := exists_writeNumber hfinite
      obtain ⟨c, s, hs, hstart⟩ := w.exists_cons
      have hconveys : Conveys readFloat (writeNumber x) x := {
        reads := readFloat_writeNumber hfinite
        cut := fun hp => readFloat_cut hmoderate (htext ▸ hp)
        oneByte := htext ▸ w.oneByte_text }
      rw [Option.filter_some, if_pos hfinite]
      refine hconveys.optional rfl ⟨c, s, htext ▸ hs, isBlank_of_startsNumber hstart, ?_⟩
      exact ne_of_startsNumber hstart (by decide)
    · rw [writeNumber_of_not_finite (Bool.eq_false_iff.mpr hfinite), Option.filter_some, if_neg hfinite]
      exact (delimits_null rfl).conveys

theorem writeOptional_filter (value : Option Float) :
    writeOptional writeNumber (value.filter Float.isFinite) = writeOptional writeNumber value := by
  cases value with
  | none => rfl
  | some x =>
    by_cases hfinite : x.isFinite = true
    · rw [Option.filter_some, if_pos hfinite]
    · rw [Option.filter_some, if_neg hfinite]
      exact (writeNumber_of_not_finite (Bool.eq_false_iff.mpr hfinite)).symm

theorem understands_number : Understands (readOptional readFloat) (Json.toOption? Json.toFloat?) where
  reads := readsAs_readFloat.readOptional readFloat_skipBlank
  takes := takesValues_readFloat.readOptional

/-! ## Names and keys -/

theorem oneByte_writePlain {text : String} (h : OneByte text.toList) : OneByte (writePlain text) :=
  oneByte_cons.mpr ⟨by decide, oneByte_append.mpr ⟨h, by decide⟩⟩

theorem delimits_key {key : String} (hplain : key.toList.all isPlain = true) (hone : OneByte key.toList) :
    Delimits readKey (writePlain key) key.toList where
  reads := readKey_writePlain hplain
  cut := readKey_cut hplain
  oneByte := oneByte_writePlain hone

theorem delimits_name {all : List α} {name : α → String} {a : α} (hplain : (name a).toList.all isPlain = true)
    (hone : OneByte (name a).toList) (hnamed : nameOf? all name (name a).toList = some a) :
    Delimits (readVariant (.ofNames all name)) (writePlain (name a)) a where
  reads rest := by
    have hread : readString ((name a).toList ++ '"' :: rest) = .ok ((name a).toList, rest) :=
      readString_plain hplain rest
    have hbare : ((Alternatives.ofNames all name).named (name a).toList).bind
        (Alternatives.ofNames all name).bare = some a := by
      show (nameOf? all name (name a).toList).bind some = some a
      rw [hnamed, Option.bind_some]
    rw [writePlain_append]
    simp only [readVariant, skipBlank_cons (by decide : isBlank '"' = false), hread, hbare]
  cut := readVariant_cut hplain
  oneByte := oneByte_writePlain hone

theorem understands_name (all : List α) (name : α → String) :
    Understands (readVariant (.ofNames all name)) (Json.toName? all name) where
  reads := readsAs_readVariant all name
  takes := takesValues_readVariant_ofNames all name

end QpReferee.JsonText

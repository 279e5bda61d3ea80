import Mathlib.Data.Nat.Notation
import QpReferee.JsonText.Value
import QpReferee.JsonText.Write

/-!
# Strings as they are written

A string is written in symbols: characters that stand for themselves, escapes of one letter, and escaped code
units, of which a surrogate pair takes two. Symbols that leave a surrogate alone have no meaning as a text, but
they are a string nevertheless: it can be skipped, and it cannot be read.

* `Symbol`, `Symbol.decode` : what stands between two quotes, and what it means.
* `readString_symbols` : **a string is read to its meaning, if it has one.**
* `skipString_symbols` : **every string is skipped.**
* `readString_plain`, `readKey_writePlain` : strings in which nothing is escaped.
-/

namespace QpReferee.JsonText

/-! ## Characters that stand for themselves -/

/-- A character that stands for itself in a string. -/
def isPlain (c : Char) : Bool := c != '"' && c != '\\' && !isControl c

section

variable {c : Char} (hc : isPlain c = true)

include hc

theorem ne_of_isPlain : c ≠ '"' ∧ c ≠ '\\' ∧ isControl c = false := by
  unfold isPlain at hc
  simp only [Bool.and_eq_true, bne_iff_ne, Bool.not_eq_true'] at hc
  exact ⟨hc.1.1, hc.1.2, hc.2⟩

theorem readCharacters_cons (read s : List Char) :
    readCharacters read (c :: s) = readCharacters (c :: read) s := by
  obtain ⟨hquote, hslash, hcontrol⟩ := ne_of_isPlain hc
  rw [readCharacters]
  · rw [if_neg (by rw [hcontrol]; decide)]
  · exact fun h => hquote h
  · exact fun h => hslash h

theorem skipString_cons (s : List Char) : skipString (c :: s) = skipString s := by
  obtain ⟨hquote, hslash, hcontrol⟩ := ne_of_isPlain hc
  rw [skipString]
  · rw [if_neg (by rw [hcontrol]; decide)]
  · exact fun h => hquote h
  · exact fun h => hslash h

end

theorem readCharacters_plain {cs : List Char} (h : cs.all isPlain = true) (read rest : List Char) :
    readCharacters read (cs ++ '"' :: rest) = .ok (read.reverse ++ cs, rest) := by
  induction cs generalizing read with
  | nil => rw [List.nil_append, readCharacters, List.append_nil]
  | cons c cs ih =>
    rw [List.all_cons, Bool.and_eq_true] at h
    rw [List.cons_append, readCharacters_cons h.1, ih h.2, List.reverse_cons, List.append_assoc]
    rfl

theorem readString_plain {text : String} (h : text.toList.all isPlain = true) (rest : List Char) :
    readString (text.toList ++ '"' :: rest) = .ok (text.toList, rest) :=
  readCharacters_plain h [] rest

theorem writePlain_append (text : String) (rest : List Char) :
    writePlain text ++ rest = '"' :: (text.toList ++ '"' :: rest) := by
  rw [writePlain, ← List.cons_append, List.append_assoc]
  rfl

theorem readKey_writePlain {key : String} (h : key.toList.all isPlain = true) (rest : List Char) :
    readKey (writePlain key ++ rest) = .ok (key.toList, rest) := by
  rw [writePlain_append]
  exact readString_plain h rest

/-! ## Symbols -/

/-- A hexadecimal digit and its value. -/
structure HexDigit where
  char : Char
  value : ℕ
  isDigit : hexDigit? char = some value

/-- Four hexadecimal digits. -/
structure CodeUnit where
  a : HexDigit
  b : HexDigit
  c : HexDigit
  d : HexDigit

namespace CodeUnit

def text (u : CodeUnit) : List Char := [u.a.char, u.b.char, u.c.char, u.d.char]

def value (u : CodeUnit) : ℕ := ((u.a.value * 16 + u.b.value) * 16 + u.c.value) * 16 + u.d.value

theorem readUnit_text (u : CodeUnit) (rest : List Char) : readUnit (u.text ++ rest) = .ok (u.value, rest) := by
  unfold text readUnit
  dsimp only [List.cons_append, List.nil_append]
  rw [u.a.isDigit, u.b.isDigit, u.c.isDigit, u.d.isDigit]
  rfl

end CodeUnit

/-- A symbol of a string. -/
inductive Symbol where
  | plain (c : Char) (h : isPlain c = true)
  | short (letter c : Char) (h : shortEscape? letter = some c)
  | unit (u : CodeUnit)

namespace Symbol

def text : Symbol → List Char
  | plain c _ => [c]
  | short letter _ _ => ['\\', letter]
  | unit u => '\\' :: 'u' :: u.text

/-- The text that some symbols stand for. A code unit of a surrogate pair stands for nothing alone. -/
def decode : List Symbol → Option (List Char)
  | [] => some []
  | plain c _ :: symbols => (decode symbols).map (c :: ·)
  | short _ c _ :: symbols => (decode symbols).map (c :: ·)
  | unit u :: symbols =>
    if isTrailing u.value then none
    else if isLeading u.value then
      match symbols with
      | unit v :: symbols =>
        if isTrailing v.value then
          (decode symbols).map
            (Char.ofNat ((u.value - 0xD800) * 0x400 + (v.value - 0xDC00) + 0x10000) :: ·)
        else none
      | _ => none
    else (decode symbols).map (Char.ofNat u.value :: ·)

end Symbol

/-- What stands behind the opening quote. -/
def stringTail (symbols : List Symbol) : List Char := symbols.flatMap Symbol.text ++ ['"']

theorem stringTail_nil : stringTail [] = ['"'] := rfl

theorem stringTail_cons (symbol : Symbol) (symbols : List Symbol) (rest : List Char) :
    stringTail (symbol :: symbols) ++ rest = symbol.text ++ (stringTail symbols ++ rest) := by
  simp only [stringTail, List.flatMap_cons, List.append_assoc]

theorem stringTail_plain {c : Char} (h : isPlain c = true) (symbols : List Symbol) (rest : List Char) :
    stringTail (.plain c h :: symbols) ++ rest = c :: (stringTail symbols ++ rest) := rfl

theorem stringTail_short {letter c : Char} (h : shortEscape? letter = some c) (symbols : List Symbol)
    (rest : List Char) :
    stringTail (.short letter c h :: symbols) ++ rest = '\\' :: letter :: (stringTail symbols ++ rest) := rfl

theorem stringTail_unit (u : CodeUnit) (symbols : List Symbol) (rest : List Char) :
    stringTail (.unit u :: symbols) ++ rest = '\\' :: ('u' :: u.text ++ (stringTail symbols ++ rest)) :=
  rfl

theorem ne_u_of_shortEscape? {letter c : Char} (h : shortEscape? letter = some c) : letter ≠ 'u' := by
  rintro rfl
  cases h

theorem skipString_escape {s r : List Char} (h : skipEscape s = .ok r) :
    skipString ('\\' :: s) = skipString r := by
  rw [skipString]
  split
  · next heq => rw [h] at heq; cases heq
  · next heq => rw [h] at heq; cases heq; rfl

/-- **Every string is skipped.** -/
theorem skipString_symbols (symbols : List Symbol) (rest : List Char) :
    skipString (stringTail symbols ++ rest) = .ok rest := by
  induction symbols with
  | nil => rw [stringTail_nil, List.singleton_append, skipString]
  | cons symbol symbols ih =>
    cases symbol with
    | plain c hc => rw [stringTail_plain, skipString_cons hc, ih]
    | short letter c hletter =>
      have hskip : skipEscape (letter :: (stringTail symbols ++ rest)) = .ok (stringTail symbols ++ rest) := by
        rw [skipEscape]
        · rw [hletter]
          rfl
        · exact fun h => ne_u_of_shortEscape? hletter h
      rw [stringTail_short, skipString_escape hskip, ih]
    | unit u =>
      have hskip : skipEscape ('u' :: u.text ++ (stringTail symbols ++ rest)) =
          .ok (stringTail symbols ++ rest) := by
        rw [List.cons_append, skipEscape, u.readUnit_text]
      rw [stringTail_unit, skipString_escape hskip, ih]

section

variable {s : List Char} {c : Char} {r : List Char}

theorem readCharacters_escape (h : readEscape s = .ok (c, r)) (read : List Char) :
    readCharacters read ('\\' :: s) = readCharacters (c :: read) r := by
  rw [readCharacters]
  split
  · next heq => rw [h] at heq; cases heq
  · next heq => rw [h] at heq; cases heq; rfl

theorem readCharacters_escape_error {e : Error} (h : readEscape s = .error e) (read : List Char) :
    readCharacters read ('\\' :: s) = .error e := by
  rw [readCharacters]
  split
  · next heq => rw [h] at heq; cases heq; rfl
  · next heq => rw [h] at heq; cases heq

end

section

variable {u : CodeUnit} {s : List Char}

theorem readEscape_trailing (htrailing : isTrailing u.value = true) :
    readEscape ('u' :: u.text ++ s) = .error .malformed := by
  simp only [List.cons_append, readEscape, readUnits, u.readUnit_text, if_pos htrailing]

theorem readEscape_single (htrailing : ¬isTrailing u.value = true) (hleading : ¬isLeading u.value = true) :
    readEscape ('u' :: u.text ++ s) = .ok (Char.ofNat u.value, s) := by
  simp only [List.cons_append, readEscape, readUnits, u.readUnit_text, if_neg htrailing, if_neg hleading]

theorem readEscape_pair (htrailing : ¬isTrailing u.value = true) (hleading : isLeading u.value = true) {m : ℕ}
    {r : List Char} (h : readTrailing s = .ok (m, r)) :
    readEscape ('u' :: u.text ++ s) =
      .ok (Char.ofNat ((u.value - 0xD800) * 0x400 + (m - 0xDC00) + 0x10000), r) := by
  simp only [List.cons_append, readEscape, readUnits, u.readUnit_text, if_neg htrailing, if_pos hleading, h]

theorem readEscape_unpaired (htrailing : ¬isTrailing u.value = true) (hleading : isLeading u.value = true)
    {e : Error} (h : readTrailing s = .error e) : readEscape ('u' :: u.text ++ s) = .error e := by
  simp only [List.cons_append, readEscape, readUnits, u.readUnit_text, if_neg htrailing, if_pos hleading, h]

end

theorem readTrailing_unit (v : CodeUnit) (s : List Char) :
    readTrailing ('\\' :: ('u' :: v.text ++ s)) =
      if isTrailing v.value then .ok (v.value, s) else .error .malformed := by
  rw [List.cons_append, readTrailing, v.readUnit_text]

theorem readTrailing_other {symbols : List Symbol} (h : ∀ v rest, symbols = .unit v :: rest → False)
    (rest : List Char) : readTrailing (stringTail symbols ++ rest) = .error .malformed := by
  cases symbols with
  | nil => rfl
  | cons symbol symbols =>
    cases symbol with
    | plain c hc =>
      obtain ⟨-, hslash, -⟩ := ne_of_isPlain hc
      rw [stringTail_plain, readTrailing]
      · exact fun hnil => List.cons_ne_nil _ _ hnil
      · exact fun heq => hslash (List.cons.inj heq).1
      · exact fun s heq => hslash (List.cons.inj heq).1
    | short letter c hletter =>
      rw [stringTail_short, readTrailing]
      · exact fun hnil => List.cons_ne_nil _ _ hnil
      · exact fun heq => List.cons_ne_nil _ _ (List.cons.inj heq).2
      · exact fun s heq => ne_u_of_shortEscape? hletter (List.cons.inj (List.cons.inj heq).2).1
    | unit v => exact absurd rfl (h v symbols)

/-- **A string is read to its meaning, if it has one.** -/
theorem readCharacters_symbols (symbols : List Symbol) (read rest : List Char) :
    (readCharacters read (stringTail symbols ++ rest)).toOption =
      (Symbol.decode symbols).map fun cs => (read.reverse ++ cs, rest) := by
  have hmap (c : Char) (read : List Char) (o : Option (List Char)) :
      (o.map (c :: ·)).map (fun cs => (read.reverse ++ cs, rest)) =
        o.map fun cs => ((c :: read).reverse ++ cs, rest) := by
    cases o <;> simp
  induction symbols using Symbol.decode.induct generalizing read with
  | case1 =>
    rw [stringTail_nil, List.singleton_append, readCharacters, Symbol.decode, Option.map_some, List.append_nil]
    rfl
  | case2 c hc symbols ih => rw [stringTail_plain, readCharacters_cons hc, ih, Symbol.decode, hmap]
  | case3 letter c h symbols ih =>
    have hread : readEscape (letter :: (stringTail symbols ++ rest)) = .ok (c, stringTail symbols ++ rest) := by
      rw [readEscape]
      · rw [h]
      · exact fun heq => ne_u_of_shortEscape? h heq
    rw [stringTail_short, readCharacters_escape hread, ih, Symbol.decode, hmap]
  | case4 u symbols htrailing =>
    rw [stringTail_unit, readCharacters_escape_error (readEscape_trailing htrailing), Symbol.decode.eq_def]
    dsimp only
    rw [if_pos htrailing]
    rfl
  | case5 u htrailing hleading v symbols htrailing' ih =>
    have hsecond := readTrailing_unit v (stringTail symbols ++ rest)
    rw [if_pos htrailing'] at hsecond
    rw [stringTail_unit, stringTail_unit,
      readCharacters_escape (readEscape_pair htrailing hleading hsecond), ih, Symbol.decode,
      if_neg htrailing, if_pos hleading, if_pos htrailing', hmap]
  | case6 u htrailing hleading v symbols htrailing' =>
    have hsecond := readTrailing_unit v (stringTail symbols ++ rest)
    rw [if_neg htrailing'] at hsecond
    rw [stringTail_unit, stringTail_unit,
      readCharacters_escape_error (readEscape_unpaired htrailing hleading hsecond), Symbol.decode,
      if_neg htrailing, if_pos hleading, if_neg htrailing']
    rfl
  | case7 u symbols htrailing hleading hother =>
    have hsecond := readTrailing_other hother rest
    rw [stringTail_unit, readCharacters_escape_error (readEscape_unpaired htrailing hleading hsecond),
      Symbol.decode, if_neg htrailing, if_pos hleading]
    · rfl
    · exact hother
  | case8 u symbols htrailing hleading ih =>
    rw [stringTail_unit, readCharacters_escape (readEscape_single htrailing hleading), ih,
      Symbol.decode.eq_def (.unit u :: symbols)]
    dsimp only
    rw [if_neg htrailing, if_neg hleading, hmap]

theorem readString_symbols (symbols : List Symbol) (rest : List Char) :
    (readString (stringTail symbols ++ rest)).toOption = (Symbol.decode symbols).map (·, rest) :=
  readCharacters_symbols symbols [] rest

end QpReferee.JsonText

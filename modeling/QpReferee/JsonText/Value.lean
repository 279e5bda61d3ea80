import QpReferee.JsonText.Skip
import QpReferee.Scalar

/-!
# Typed values

Readers of one value of a known type. A value of another type is a mismatch as soon as its first
token is read; of that token, literals, strings and numbers are still read whole.

* `readBool`, `readFloat`, `readNatural`, `readNull`, `readOptional` : plain values.
* `readVariant` : one of several named alternatives, written as its name or as an object with the
  name for its only key.
* `readAll` : a value that is the whole text.
-/

namespace QpReferee.JsonText

/-! ## Values of another type -/

/-- One more than the exponent of the leading digit of a written number. -/
def Numeral.lead (n : Numeral) : Int :=
  (n.digits.dropWhile (· == '0')).length + n.exponent - n.places

def Numeral.magnitude (n : Numeral) : Nat :=
  Decimal.magnitudeAt .binary64 n.lead ⟨digitsValue n.digits, n.exponent - n.places⟩

/-- Read a number, which has to be in range. -/
def readNumeral (s : List Char) : Read Numeral :=
  match scanNumeral .truncated s with
  | .error e => .error e
  | .ok (n, rest) =>
    if n.magnitude = BinaryFormat.binary64.infinity then .error .malformed else .ok (n, rest)

theorem length_readNumeral_lt {s r : List Char} {n : Numeral} (h : readNumeral s = .ok (n, r)) :
    r.length < s.length := by
  unfold readNumeral at h
  grind [→ length_scanNumeral_lt]

/-- The error of a token, if it has one of its own, and a mismatch otherwise. -/
def mismatchAfter {α : Type} : Except Error α → Error
  | .error e => e
  | .ok _ => .mismatch

/-- Does a number start with this character? -/
def startsNumber (c : Char) : Bool := c == '-' || c.isDigit

/-- The error of a value that is not of the expected type; the text starts with no blank. -/
def unexpected (s : List Char) : Error :=
  match s with
  | [] => .truncated
  | 'n' :: rest => mismatchAfter (readLiteral ['u', 'l', 'l'] rest)
  | 't' :: rest => mismatchAfter (readLiteral ['r', 'u', 'e'] rest)
  | 'f' :: rest => mismatchAfter (readLiteral ['a', 'l', 's', 'e'] rest)
  | '"' :: rest => mismatchAfter (readString rest)
  | '[' :: _ => .mismatch
  | '{' :: _ => .mismatch
  | c :: rest => if startsNumber c then mismatchAfter (readNumeral (c :: rest)) else .malformed

/-! ## Plain values -/

/-- Read the rest of a literal that stands for a value. -/
def readConstant {α : Type} (literal : List Char) (value : α) (s : List Char) : Read α :=
  match readLiteral literal s with
  | .error e => .error e
  | .ok rest => .ok (value, rest)

theorem length_readConstant_le {α : Type} {literal s r : List Char} {a v : α}
    (h : readConstant literal v s = .ok (a, r)) : r.length ≤ s.length := by
  unfold readConstant at h
  grind [→ length_readLiteral_le]

def readBool (s : List Char) : Read Bool :=
  match skipBlank s with
  | 't' :: rest => readConstant ['r', 'u', 'e'] true rest
  | 'f' :: rest => readConstant ['a', 'l', 's', 'e'] false rest
  | s => .error (unexpected s)

theorem length_readBool_lt {s r : List Char} {b : Bool} (h : readBool s = .ok (b, r)) :
    r.length < s.length := by
  have := length_skipBlank_le s
  unfold readBool at h
  grind [→ length_readConstant_le]

/-- Read the value that says that there is none. -/
def readNull (s : List Char) : Read Unit :=
  match skipBlank s with
  | 'n' :: rest => readConstant ['u', 'l', 'l'] () rest
  | s => .error (unexpected s)

theorem length_readNull_lt {s r : List Char} {u : Unit} (h : readNull s = .ok (u, r)) :
    r.length < s.length := by
  have := length_skipBlank_le s
  unfold readNull at h
  grind [→ length_readConstant_le]

def readNumber (s : List Char) : Read Numeral :=
  match skipBlank s with
  | [] => .error .truncated
  | c :: rest =>
    if startsNumber c then readNumeral (c :: rest) else .error (unexpected (c :: rest))

theorem length_readNumber_lt {s r : List Char} {n : Numeral} (h : readNumber s = .ok (n, r)) :
    r.length < s.length := by
  have := length_skipBlank_le s
  unfold readNumber at h
  grind [→ length_readNumeral_lt]

/-- The double precision number that a numeral is rounded to. -/
def Numeral.toFloat (n : Numeral) : Float :=
  BinaryScalar.ofBits ((if n.negative then BinaryFormat.binary64.signBit else 0) + n.magnitude)

def readFloat (s : List Char) : Read Float :=
  match readNumber s with
  | .error e => .error e
  | .ok (n, rest) => .ok (n.toFloat, rest)

theorem length_readFloat_lt {s r : List Char} {x : Float} (h : readFloat s = .ok (x, r)) :
    r.length < s.length := by
  unfold readFloat at h
  grind [→ length_readNumber_lt]

/-- Read a size: a number in the word range, without a sign, a fraction or an exponent. -/
def readNatural (s : List Char) : Read Nat :=
  match readNumber s with
  | .error e => .error e
  | .ok (n, rest) =>
    let value := digitsValue n.digits
    if n.whole ∧ ¬n.negative ∧ value < Nat.pow 2 64 then .ok (value, rest) else .error .mismatch

def readOptional {α : Type} (read : List Char → Read α) (s : List Char) : Read (Option α) :=
  match skipBlank s with
  | 'n' :: rest => readConstant ['u', 'l', 'l'] none rest
  | s =>
    match read s with
    | .error e => .error e
    | .ok (a, rest) => .ok (some a, rest)

theorem length_readOptional_lt {α : Type} {read : List Char → Read α}
    (hread : ∀ {s r a}, read s = .ok (a, r) → r.length < s.length) {s r : List Char}
    {a : Option α} (h : readOptional read s = .ok (a, r)) : r.length < s.length := by
  have := length_skipBlank_le s
  unfold readOptional at h
  grind [→ length_readConstant_le]

/-- Read the key of a member. Whatever else stands where a key has to start is malformed; it is not
read any further. -/
def readKey (s : List Char) : Read (List Char) :=
  match skipBlank s with
  | [] => .error .truncated
  | '"' :: rest => readString rest
  | _ => .error .malformed

theorem length_readKey_lt {s r key : List Char} (h : readKey s = .ok (key, r)) :
    r.length < s.length := by
  have hle := length_skipBlank_le s
  unfold readKey at h
  split at h
  · cases h
  · next rest hs =>
    have hlt := length_readString_lt h
    rw [hs, List.length_cons] at hle
    omega
  · cases h

/-! ## Named alternatives -/

/-- How the alternatives of a type are written. -/
structure Alternatives (α β : Type) where
  /-- The alternative with a name. -/
  named : List Char → Option α
  /-- What an alternative stands for without a content, if it can be without. -/
  bare : α → Option β
  /-- Read the content of an alternative. -/
  content : α → List Char → Read β

def readClosing {α : Type} (value : α) (s : List Char) : Read α :=
  match skipBlank s with
  | [] => .error .truncated
  | c :: rest => if c = '}' then .ok (value, rest) else .error .malformed

theorem length_readClosing_lt {α : Type} {v a : α} {s r : List Char}
    (h : readClosing v s = .ok (a, r)) : r.length < s.length := by
  have := length_skipBlank_le s
  unfold readClosing at h
  grind

/-- Read an alternative with its content, from after the opening brace. -/
def readContent {α β : Type} (alternatives : Alternatives α β) (s : List Char) : Read β :=
  match readKey s with
  | .error e => .error e
  | .ok (name, rest) =>
    match alternatives.named name with
    | none => .error .mismatch
    | some alternative =>
      match skipColon rest with
      | .error e => .error e
      | .ok rest =>
        match alternatives.content alternative rest with
        | .error e => .error e
        | .ok (value, rest) => readClosing value rest

/-- Read one of several named alternatives. -/
def readVariant {α β : Type} (alternatives : Alternatives α β) (s : List Char) : Read β :=
  match skipBlank s with
  | [] => .error .truncated
  | '"' :: rest =>
    match readString rest with
    | .error e => .error e
    | .ok (name, rest) =>
      match (alternatives.named name).bind alternatives.bare with
      | none => .error .mismatch
      | some value => .ok (value, rest)
  | '{' :: rest => readContent alternatives rest
  | _ => .error .malformed

/-- Alternatives that are nothing but their names. -/
def Alternatives.ofNames {α : Type} (all : List α) (name : α → String) : Alternatives α α where
  named text := all.find? fun a => (name a).toList == text
  bare := some
  content a s :=
    match readNull s with
    | .error e => .error e
    | .ok (_, rest) => .ok (a, rest)

theorem length_readContent_lt {α β : Type} {alternatives : Alternatives α β}
    (hcontent : ∀ a s p, alternatives.content a s = .ok p → p.2.length < s.length)
    {s r : List Char} {b : β} (h : readContent alternatives s = .ok (b, r)) :
    r.length < s.length := by
  unfold readContent at h
  split at h
  · cases h
  next name rest hKey =>
    split at h
    · cases h
    next alternative _ =>
      split at h
      · cases h
      next rest' hColon =>
        split at h
        · cases h
        next value rest'' hContent =>
          have h₁ := length_readKey_lt hKey
          have h₂ := length_skipColon_lt hColon
          have h₃ := hcontent _ _ _ hContent
          have h₄ := length_readClosing_lt h
          simp only at h₃
          omega

theorem length_readVariant_lt {α β : Type} {alternatives : Alternatives α β}
    (hcontent : ∀ a s p, alternatives.content a s = .ok p → p.2.length < s.length)
    {s r : List Char} {b : β} (h : readVariant alternatives s = .ok (b, r)) :
    r.length < s.length := by
  have := length_skipBlank_le s
  unfold readVariant at h
  have := @length_readContent_lt _ _ _ hcontent
  grind [→ length_readString_lt]

theorem length_content_ofNames_lt {α : Type} (all : List α) (name : α → String) (a : α)
    (s : List Char) (p : α × List Char) (h : (Alternatives.ofNames all name).content a s = .ok p) :
    p.2.length < s.length := by
  unfold Alternatives.ofNames at h
  grind [→ length_readNull_lt]

/-! ## Whole texts -/

/-- Read a value that is the whole text, blanks apart. -/
def readAll {α : Type} (read : List Char → Read α) (s : List Char) : Except Error α :=
  match read s with
  | .error e => .error e
  | .ok (value, rest) => if (skipBlank rest).isEmpty then .ok value else .error .malformed

end QpReferee.JsonText

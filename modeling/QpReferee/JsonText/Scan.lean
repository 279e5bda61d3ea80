import QpReferee.Decimal.Basic

/-!
# Pieces of JSON text

The scanners read from the left and stop at the first error. Each returns the text after what it
read, which is shorter than what it was given.

* `JsonText.Error` : the three classes of errors.
* `readString`, `skipString` : a string after its opening quote. Where its characters matter,
  surrogates have to come in pairs; where they do not, escapes are only checked for their form.
* `scanNumeral` : a number, from its sign or first digit.
-/

namespace QpReferee.JsonText

/-- The classes of errors in a text. -/
inductive Error where
  /-- The text is not JSON. -/
  | malformed
  /-- A value is not of the type, or not among the names, that is expected. -/
  | mismatch
  /-- The text ends too early. -/
  | truncated
  deriving DecidableEq, Repr

/-- What was read, and the text after it. -/
abbrev Read (α : Type) := Except Error (α × List Char)

/-! ## Blanks and literals -/

/-- The characters that may stand between tokens. -/
def isBlank (c : Char) : Bool := c == ' ' || c == '\n' || c == '\t' || c == '\r'

/-- The text without the blanks at its start. -/
def skipBlank (s : List Char) : List Char := s.dropWhile isBlank

theorem length_skipBlank_le (s : List Char) : (skipBlank s).length ≤ s.length :=
  (List.dropWhile_sublist isBlank).length_le

def readLiteral : List Char → List Char → Except Error (List Char)
  | [], s => .ok s
  | _ :: _, [] => .error .truncated
  | c :: rest, d :: s => if c = d then readLiteral rest s else .error .malformed

theorem length_readLiteral_le {literal s r : List Char} (h : readLiteral literal s = .ok r) :
    r.length ≤ s.length := by
  fun_induction readLiteral literal s with
  | case1 s => cases h; exact Nat.le_refl _
  | case2 => cases h
  | case3 c rest s ih => exact Nat.le_succ_of_le (ih h)
  | case4 => cases h

/-! ## Strings -/

def hexDigit? (c : Char) : Option Nat :=
  if '0' ≤ c ∧ c ≤ '9' then some (c.toNat - 48)
  else if 'a' ≤ c ∧ c ≤ 'f' then some (c.toNat - 87)
  else if 'A' ≤ c ∧ c ≤ 'F' then some (c.toNat - 55)
  else none

/-- The number of bytes that a text takes. -/
def byteLength (s : List Char) : Nat := s.foldr (fun c n => c.utf8Size + n) 0

/-- Read a code unit of four hexadecimal digits. A text of fewer than four bytes ends too early. -/
def readUnit (s : List Char) : Read Nat :=
  match s with
  | a :: b :: c :: d :: rest =>
    match hexDigit? a, hexDigit? b, hexDigit? c, hexDigit? d with
    | some a, some b, some c, some d => .ok (((a * 16 + b) * 16 + c) * 16 + d, rest)
    | _, _, _, _ => .error .malformed
  | _ => if byteLength s < 4 then .error .truncated else .error .malformed

theorem length_readUnit_lt {s r : List Char} {n : Nat} (h : readUnit s = .ok (n, r)) :
    r.length < s.length := by
  unfold readUnit at h
  grind

/-- Is a code unit the first of a surrogate pair? -/
def isLeading (n : Nat) : Bool := 0xD800 ≤ n && n ≤ 0xDBFF

/-- Is a code unit the second of a surrogate pair? -/
def isTrailing (n : Nat) : Bool := 0xDC00 ≤ n && n ≤ 0xDFFF

/-- Read the escaped code unit that has to follow the first of a surrogate pair. -/
def readTrailing (s : List Char) : Read Nat :=
  match s with
  | [] => .error .truncated
  | '\\' :: [] => .error .truncated
  | '\\' :: 'u' :: rest =>
    match readUnit rest with
    | .error e => .error e
    | .ok (n, rest) => if isTrailing n then .ok (n, rest) else .error .malformed
  | _ => .error .malformed

theorem length_readTrailing_lt {s r : List Char} {n : Nat} (h : readTrailing s = .ok (n, r)) :
    r.length < s.length := by
  unfold readTrailing at h
  grind [→ length_readUnit_lt]

/-- Read the character of one or two escaped code units, from after the first `u`. -/
def readUnits (s : List Char) : Read Char :=
  match readUnit s with
  | .error e => .error e
  | .ok (n, rest) =>
    if isTrailing n then .error .malformed
    else if isLeading n then
      match readTrailing rest with
      | .error e => .error e
      | .ok (m, rest) => .ok (Char.ofNat ((n - 0xD800) * 0x400 + (m - 0xDC00) + 0x10000), rest)
    else .ok (Char.ofNat n, rest)

theorem length_readUnits_lt {s r : List Char} {c : Char} (h : readUnits s = .ok (c, r)) :
    r.length < s.length := by
  unfold readUnits at h
  grind [→ length_readUnit_lt, → length_readTrailing_lt]

/-- The character of an escape of one letter. -/
def shortEscape? : Char → Option Char
  | '"' => some '"'
  | '\\' => some '\\'
  | '/' => some '/'
  | 'b' => some '\x08'
  | 'f' => some '\x0c'
  | 'n' => some '\n'
  | 'r' => some '\r'
  | 't' => some '\t'
  | _ => none

/-- Read the character of an escape, from after the backslash. -/
def readEscape (s : List Char) : Read Char :=
  match s with
  | [] => .error .truncated
  | 'u' :: rest => readUnits rest
  | c :: rest =>
    match shortEscape? c with
    | some c => .ok (c, rest)
    | none => .error .malformed

theorem length_readEscape_lt {s r : List Char} {c : Char} (h : readEscape s = .ok (c, r)) :
    r.length < s.length := by
  unfold readEscape at h
  grind [→ length_readUnits_lt]

/-- Is a character refused inside a string? -/
def isControl (c : Char) : Bool := c.toNat < 0x20

/-- Read the characters of a string up to its closing quote, in front of which `read` stand in
reverse. -/
def readCharacters (read : List Char) (s : List Char) : Read (List Char) :=
  match s with
  | [] => .error .truncated
  | '"' :: rest => .ok (read.reverse, rest)
  | '\\' :: rest =>
    match h : readEscape rest with
    | .error e => .error e
    | .ok (c, rest') =>
      have := length_readEscape_lt h
      readCharacters (c :: read) rest'
  | c :: rest => if isControl c then .error .malformed else readCharacters (c :: read) rest
termination_by s.length
decreasing_by all_goals simp only [List.length_cons]; omega

/-- Read a string, from after its opening quote. -/
def readString (s : List Char) : Read (List Char) := readCharacters [] s

theorem length_readCharacters_lt {read s cs r : List Char}
    (h : readCharacters read s = .ok (cs, r)) : r.length < s.length := by
  fun_induction readCharacters read s <;> grind [→ length_readEscape_lt]

theorem length_readString_lt {s cs r : List Char} (h : readString s = .ok (cs, r)) :
    r.length < s.length :=
  length_readCharacters_lt h

/-- Skip an escape, from after the backslash. -/
def skipEscape (s : List Char) : Except Error (List Char) :=
  match s with
  | [] => .error .truncated
  | 'u' :: rest =>
    match readUnit rest with
    | .error e => .error e
    | .ok (_, rest) => .ok rest
  | c :: rest => if (shortEscape? c).isSome then .ok rest else .error .malformed

theorem length_skipEscape_lt {s r : List Char} (h : skipEscape s = .ok r) :
    r.length < s.length := by
  unfold skipEscape at h
  grind [→ length_readUnit_lt]

/-- Skip a string, from after its opening quote. -/
def skipString (s : List Char) : Except Error (List Char) :=
  match s with
  | [] => .error .truncated
  | '"' :: rest => .ok rest
  | '\\' :: rest =>
    match h : skipEscape rest with
    | .error e => .error e
    | .ok rest' =>
      have := length_skipEscape_lt h
      skipString rest'
  | c :: rest => if isControl c then .error .malformed else skipString rest
termination_by s.length
decreasing_by all_goals simp only [List.length_cons]; omega

theorem length_skipString_lt {s r : List Char} (h : skipString s = .ok r) :
    r.length < s.length := by
  fun_induction skipString s <;> grind [→ length_skipEscape_lt]

/-! ## Numbers -/

/-- A written number. -/
structure Numeral where
  negative : Bool
  /-- The digits before the point and after it. -/
  digits : List Char
  /-- The number of digits after the point. -/
  places : Nat
  exponent : Int
  /-- Is there neither a fraction nor an exponent? -/
  whole : Bool
  deriving DecidableEq, Repr

/-- The number that some decimal digits write. -/
def digitsValue (ds : List Char) : Nat := fromDigits 10 (ds.reverse.map fun d => d.toNat - 48)

def startsWithDigit (s : List Char) : Bool := s.head?.any Char.isDigit

/-- Read at least one digit; `atEnd` is the error of a text that ends instead. -/
def scanDigits (atEnd : Error) (s : List Char) : Read (List Char) :=
  if startsWithDigit s then .ok (s.takeWhile Char.isDigit, s.dropWhile Char.isDigit)
  else if s.isEmpty then .error atEnd
  else .error .malformed

theorem length_scanDigits_lt {e : Error} {s ds r : List Char}
    (h : scanDigits e s = .ok (ds, r)) : r.length < s.length := by
  unfold scanDigits at h
  split at h
  · rename_i hd
    cases h
    cases s with
    | nil => simp [startsWithDigit] at hd
    | cons c s =>
      have hc : c.isDigit = true := by simpa [startsWithDigit] using hd
      rw [List.dropWhile_cons_of_pos hc]
      exact Nat.lt_succ_of_le (List.dropWhile_sublist _).length_le
  · split at h <;> cases h

/-- Read the digits before the point: zero, or digits of which the first is not zero. -/
def scanWhole (atEnd : Error) (s : List Char) : Read (List Char) :=
  match s with
  | '0' :: rest => if startsWithDigit rest then .error .malformed else .ok (['0'], rest)
  | _ => scanDigits atEnd s

theorem length_scanWhole_lt {e : Error} {s ds r : List Char}
    (h : scanWhole e s = .ok (ds, r)) : r.length < s.length := by
  unfold scanWhole at h
  grind [→ length_scanDigits_lt]

/-- Read the digits after a point, if there is one. -/
def scanFraction (atEnd : Error) (s : List Char) : Read (List Char) :=
  match s with
  | '.' :: rest => scanDigits atEnd rest
  | _ => .ok ([], s)

theorem length_scanFraction_le {e : Error} {s ds r : List Char}
    (h : scanFraction e s = .ok (ds, r)) : r.length ≤ s.length := by
  unfold scanFraction at h
  grind [→ length_scanDigits_lt]

/-- The sign at the start of an exponent, and the text after it. -/
def exponentSign (s : List Char) : Bool × List Char :=
  match s with
  | '+' :: rest => (false, rest)
  | '-' :: rest => (true, rest)
  | _ => (false, s)

theorem length_exponentSign_le (s : List Char) : (exponentSign s).2.length ≤ s.length := by
  unfold exponentSign
  grind

/-- Is a character the mark of an exponent? -/
def isExponentMark (c : Char) : Bool := c == 'e' || c == 'E'

/-- Read the exponent after its mark, if there is one. -/
def scanExponent (atEnd : Error) (s : List Char) : Read (Option Int) :=
  match s with
  | c :: rest =>
    if isExponentMark c then
      match scanDigits atEnd (exponentSign rest).2 with
      | .error e => .error e
      | .ok (ds, r) =>
        let n := digitsValue ds
        .ok (some (if (exponentSign rest).1 then -(n : Int) else n), r)
    else .ok (none, s)
  | [] => .ok (none, s)

theorem length_scanExponent_le {e : Error} {s r : List Char} {x : Option Int}
    (h : scanExponent e s = .ok (x, r)) : r.length ≤ s.length := by
  unfold scanExponent at h
  grind [→ length_scanDigits_lt, length_exponentSign_le]

def scanUnsigned (atEnd : Error) (negative : Bool) (s : List Char) : Read Numeral :=
  match scanWhole atEnd s with
  | .error e => .error e
  | .ok (whole, s) =>
    match scanFraction atEnd s with
    | .error e => .error e
    | .ok (fraction, s) =>
      match scanExponent atEnd s with
      | .error e => .error e
      | .ok (exponent, s) =>
        .ok ({
          negative
          digits := whole ++ fraction
          places := fraction.length
          exponent := exponent.getD 0
          whole := fraction.isEmpty && exponent.isNone }, s)

theorem length_scanUnsigned_lt {e : Error} {negative : Bool} {s r : List Char} {n : Numeral}
    (h : scanUnsigned e negative s = .ok (n, r)) : r.length < s.length := by
  unfold scanUnsigned at h
  grind [→ length_scanWhole_lt, → length_scanFraction_le, → length_scanExponent_le]

/-- Read a number from its sign or first digit; `atEnd` is the error of a text that ends where a
digit has to stand. -/
def scanNumeral (atEnd : Error) (s : List Char) : Read Numeral :=
  match s with
  | '-' :: rest => scanUnsigned atEnd true rest
  | _ => scanUnsigned atEnd false s

theorem length_scanNumeral_lt {e : Error} {s r : List Char} {n : Numeral}
    (h : scanNumeral e s = .ok (n, r)) : r.length < s.length := by
  unfold scanNumeral at h
  grind [→ length_scanUnsigned_lt]

end QpReferee.JsonText

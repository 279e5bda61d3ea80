import QpReferee.JsonText.Scan

/-!
# Skipping a value

A value whose content does not matter is skipped whole. It has to be well formed, but its numbers
may be of any size, its strings may hold lone surrogates, and its nesting may be of any depth: the
brackets that are still open are kept in a list.

* `skipValue` : the text after one value.
-/

namespace QpReferee.JsonText

/-- An open bracket. -/
inductive Bracket where
  | list
  | object
  deriving DecidableEq, Repr

/-- The character that closes a bracket. -/
def Bracket.closing : Bracket → Char
  | .list => ']'
  | .object => '}'

/-- Skip the colon between a key and its value. -/
def skipColon (s : List Char) : Except Error (List Char) :=
  match skipBlank s with
  | [] => .error .truncated
  | c :: rest => if c = ':' then .ok rest else .error .malformed

theorem length_skipColon_lt {s r : List Char} (h : skipColon s = .ok r) : r.length < s.length := by
  have := length_skipBlank_le s
  unfold skipColon at h
  grind

def skipKey (s : List Char) : Except Error (List Char) :=
  match skipBlank s with
  | [] => .error .truncated
  | c :: rest =>
    if c = '"' then
      match skipString rest with
      | .error e => .error e
      | .ok rest => skipColon rest
    else .error .malformed

theorem length_skipKey_lt {s r : List Char} (h : skipKey s = .ok r) : r.length < s.length := by
  have := length_skipBlank_le s
  unfold skipKey at h
  grind [→ length_skipString_lt, → length_skipColon_lt]

/-- Skip to where the next item of an open bracket starts. -/
def skipToItem (bracket : Bracket) (s : List Char) : Except Error (List Char) :=
  match bracket with
  | .list => .ok s
  | .object => skipKey s

theorem length_skipToItem_le {b : Bracket} {s r : List Char} (h : skipToItem b s = .ok r) :
    r.length ≤ s.length := by
  unfold skipToItem at h
  grind [→ length_skipKey_lt]

def skipAtom (s : List Char) : Except Error (List Char) :=
  match s with
  | [] => .error .truncated
  | 'n' :: rest => readLiteral ['u', 'l', 'l'] rest
  | 't' :: rest => readLiteral ['r', 'u', 'e'] rest
  | 'f' :: rest => readLiteral ['a', 'l', 's', 'e'] rest
  | '"' :: rest => skipString rest
  | c :: rest =>
    if c = '-' ∨ c.isDigit then
      match scanNumeral .malformed (c :: rest) with
      | .error e => .error e
      | .ok (_, rest) => .ok rest
    else .error .malformed

theorem length_skipAtom_lt {s r : List Char} (h : skipAtom s = .ok r) : r.length < s.length := by
  unfold skipAtom at h
  grind [→ length_readLiteral_le, → length_skipString_lt, → length_scanNumeral_lt]

/-- Skip a value that holds no other, or the opening bracket of one that does. -/
def skipToken (s : List Char) : Except Error (Option Bracket × List Char) :=
  match skipBlank s with
  | '[' :: rest => .ok (some .list, rest)
  | '{' :: rest => .ok (some .object, rest)
  | s =>
    match skipAtom s with
    | .error e => .error e
    | .ok rest => .ok (none, rest)

theorem length_skipToken_lt {s r : List Char} {b : Option Bracket}
    (h : skipToken s = .ok (b, r)) : r.length < s.length := by
  have := length_skipBlank_le s
  unfold skipToken at h
  grind [→ length_skipAtom_lt]

/-- Where a skip stands inside the open brackets. -/
inductive Position where
  /-- A value has to follow. -/
  | value
  /-- A bracket was opened just now: its first item, or its end, has to follow. -/
  | opened
  /-- A value has ended: a comma or the end of its bracket has to follow. -/
  | after
  deriving DecidableEq, Repr

/-- Skip to the end of the outermost value, from a position inside the open brackets. -/
def skipFrom (position : Position) (brackets : List Bracket) (s : List Char) :
    Except Error (List Char) :=
  match position, brackets with
  | .value, _ =>
    match h : skipToken s with
    | .error e => .error e
    | .ok (none, rest) =>
      have := length_skipToken_lt h
      skipFrom .after brackets rest
    | .ok (some bracket, rest) =>
      have := length_skipToken_lt h
      skipFrom .opened (bracket :: brackets) rest
  | _, [] => .ok s
  | .opened, bracket :: outer =>
    match hs : skipBlank s with
    | [] => .error .truncated
    | c :: rest =>
      have : rest.length < s.length := by have := length_skipBlank_le s; grind
      if c = bracket.closing then skipFrom .after outer rest
      else
        match h : skipToItem bracket (c :: rest) with
        | .error e => .error e
        | .ok item =>
          have := length_skipToItem_le h
          skipFrom .value brackets item
  | .after, bracket :: outer =>
    match hs : skipBlank s with
    | [] => .error .truncated
    | c :: rest =>
      have : rest.length < s.length := by have := length_skipBlank_le s; grind
      if c = bracket.closing then skipFrom .after outer rest
      else if c = ',' then
        match h : skipToItem bracket rest with
        | .error e => .error e
        | .ok item =>
          have := length_skipToItem_le h
          skipFrom .value brackets item
      else .error .malformed
termination_by (s.length, if position = .opened then 1 else 0)
decreasing_by all_goals grind

def skipValue (s : List Char) : Except Error (List Char) := skipFrom .value [] s

theorem length_skipValue_le {s r : List Char} (h : skipValue s = .ok r) : r.length ≤ s.length := by
  unfold skipValue at h
  generalize Position.value = position, ([] : List Bracket) = brackets at h
  fun_induction skipFrom position brackets s <;>
    grind [→ length_skipToken_lt, → length_skipToItem_le, length_skipBlank_le]

end QpReferee.JsonText

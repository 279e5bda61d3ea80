/-!
# UTF-8

A character takes one to four bytes. Decoding goes on after bytes that are no character: the longest
start of a character that cannot be completed counts as one fault.

* `encode` : the bytes of a text.
* `decode?` : the text of some bytes, if all of them are characters.
* `decodeLossy` : the text of some bytes with U+FFFD in place of each fault.
-/

namespace QpReferee.Utf8

abbrev Bytes := Array UInt8

def encode (text : String) : Bytes := text.toUTF8.data

/-- How many bytes the character takes that starts with a byte; zero if none does. -/
def width (b : Nat) : Nat :=
  if b ≤ 0x7F then 1
  else if 0xC2 ≤ b ∧ b ≤ 0xDF then 2
  else if 0xE0 ≤ b ∧ b ≤ 0xEF then 3
  else if 0xF0 ≤ b ∧ b ≤ 0xF4 then 4
  else 0

/-- Can a byte follow the first byte of a character? Some first bytes leave a narrower range, which
keeps out surrogates, characters past the last one, and longer forms of shorter characters. -/
def secondFits (first second : Nat) : Bool :=
  if first = 0xE0 then 0xA0 ≤ second && second ≤ 0xBF
  else if first = 0xED then 0x80 ≤ second && second ≤ 0x9F
  else if first = 0xF0 then 0x90 ≤ second && second ≤ 0xBF
  else if first = 0xF4 then 0x80 ≤ second && second ≤ 0x8F
  else 0x80 ≤ second && second ≤ 0xBF

/-- Is a byte one of a character's third and fourth? -/
def isTail (b : Nat) : Bool := 0x80 ≤ b && b ≤ 0xBF

/-- What stands at the start of some bytes. -/
structure Piece where
  /-- The character, or nothing for a fault. -/
  char : Option Char
  /-- How many bytes it takes after the first. -/
  more : Nat

/-- Take up to `wanted` further bytes into a character of which `code` is known. -/
def extend (code : Nat) (wanted taken : Nat) (rest : List UInt8) : Piece :=
  match wanted, rest with
  | 0, _ => ⟨some (Char.ofNat code), taken⟩
  | _ + 1, [] => ⟨none, taken⟩
  | wanted + 1, b :: rest =>
    if isTail b.toNat then extend (code * 64 + b.toNat % 64) wanted (taken + 1) rest
    else ⟨none, taken⟩

/-- The piece that starts with a byte, and what follows it. -/
def piece (first : UInt8) (rest : List UInt8) : Piece :=
  let b := first.toNat
  match width b with
  | 0 => ⟨none, 0⟩
  | 1 => ⟨some (Char.ofNat b), 0⟩
  | w + 2 =>
    match rest with
    | [] => ⟨none, 0⟩
    | second :: rest =>
      if secondFits b second.toNat then
        extend (b % Nat.pow 2 (5 - w) * 64 + second.toNat % 64) w 1 rest
      else ⟨none, 0⟩

/-- The pieces of some bytes: their characters, and nothing for each fault. -/
def pieces : List UInt8 → List (Option Char)
  | [] => []
  | first :: rest =>
    let p := piece first rest
    p.char :: pieces (rest.drop p.more)
termination_by bytes => bytes.length
decreasing_by simp only [List.length_drop, List.length_cons]; omega

/-- The text of some bytes, if all of them are characters. -/
def decode? (bytes : Bytes) : Option String := String.fromUTF8? ⟨bytes⟩

/-- The character that stands for a fault. -/
def replacement : Char := '\ufffd'

/-- The text of some bytes, with the replacement character for each fault. -/
def decodeLossy (bytes : Bytes) : String :=
  String.ofList ((pieces bytes.toList).map fun c => c.getD replacement)

end QpReferee.Utf8

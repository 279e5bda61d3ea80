import Mathlib.Tactic.SplitIfs
import QpReferee.Text.Utf8

/-!
# Reading back what was encoded

A text that was encoded is decoded without faults: each character is the piece at the start of its own
bytes, whatever follows them. Texts encoded one after the other are encoded as one.

* `piece_encodeChar` : the piece at the start of an encoded character.
* `decodeLossy_encode` : **an encoded text is decoded to itself.**
* `encode_append` : the bytes of one text after another.
* `OneByte` : characters of one byte each, so that a text of them is cut where its bytes are.
-/

namespace QpReferee.Utf8

variable {code n : Nat} {rest : List UInt8}

theorem toNat_byte (hn : n < 256) : (UInt8.ofNat n).toNat = n := by
  simp [Nat.mod_eq_of_lt hn]

/-! ## One character -/

@[simp] theorem extend_zero {taken : Nat} : extend code 0 taken rest = ⟨some (Char.ofNat code), taken⟩ := rfl

theorem extend_tail {wanted taken : Nat} :
    extend code (wanted + 1) taken (UInt8.ofNat (n % 64 + 128) :: rest) =
      extend (code * 64 + n % 64) wanted (taken + 1) rest := by
  have hbyte : (UInt8.ofNat (n % 64 + 128)).toNat = n % 64 + 128 := toNat_byte (by omega)
  have htail : isTail (n % 64 + 128) = true := by
    simp only [isTail, Bool.and_eq_true, decide_eq_true_eq]
    omega
  have hbits : (n % 64 + 128) % 64 = n % 64 := by omega
  simp only [extend, hbyte, htail, hbits, if_true]

theorem piece_one (hn : n < 128) : piece (UInt8.ofNat n) rest = ⟨some (Char.ofNat n), 0⟩ := by
  have hwidth : width n = 1 := if_pos (by omega)
  simp only [piece, toNat_byte (show n < 256 by omega), hwidth]

theorem piece_more {first : Nat} (wanted : Nat) (hfirst : first < 256) (hwidth : width first = wanted + 2)
    (hfits : secondFits first (n % 64 + 128) = true) :
    piece (UInt8.ofNat first) (UInt8.ofNat (n % 64 + 128) :: rest) =
      extend (first % Nat.pow 2 (5 - wanted) * 64 + n % 64) wanted 1 rest := by
  have hsecond : (UInt8.ofNat (n % 64 + 128)).toNat = n % 64 + 128 := toNat_byte (by omega)
  have hbits : (n % 64 + 128) % 64 = n % 64 := by omega
  simp only [piece, toNat_byte hfirst, hwidth, hsecond, hfits, hbits, if_true]

theorem width_two {first : Nat} (hlow : 0xC2 ≤ first) (hhigh : first ≤ 0xDF) : width first = 2 := by
  unfold width
  rw [if_neg (by omega), if_pos ⟨hlow, hhigh⟩]

theorem width_three {first : Nat} (hlow : 0xE0 ≤ first) (hhigh : first ≤ 0xEF) : width first = 3 := by
  unfold width
  rw [if_neg (by omega), if_neg (by omega), if_pos ⟨hlow, hhigh⟩]

theorem width_four {first : Nat} (hlow : 0xF0 ≤ first) (hhigh : first ≤ 0xF4) : width first = 4 := by
  unfold width
  rw [if_neg (by omega), if_neg (by omega), if_neg (by omega), if_pos ⟨hlow, hhigh⟩]

theorem secondFits_of {first second : Nat} (hlow : 0x80 ≤ second) (hhigh : second ≤ 0xBF)
    (hE0 : first = 0xE0 → 0xA0 ≤ second) (hED : first = 0xED → second ≤ 0x9F)
    (hF0 : first = 0xF0 → 0x90 ≤ second) (hF4 : first = 0xF4 → second ≤ 0x8F) :
    secondFits first second = true := by
  unfold secondFits
  split_ifs <;> simp <;> omega

/-- A character is the piece at the start of its bytes, and takes them all. -/
theorem piece_encodeChar (c : Char) (rest : List UInt8) : ∃ first more,
    String.utf8EncodeChar c = first :: more ∧ piece first (more ++ rest) = ⟨some c, more.length⟩ := by
  have hvalid : c.toNat < 0xD800 ∨ 0xDFFF < c.toNat ∧ c.toNat < 0x110000 := c.valid
  have hchar : Char.ofNat c.toNat = c := Char.ofNat_toNat c
  generalize hv : c.toNat = v at hvalid hchar
  have hval : c.val.toNat = v := hv
  unfold String.utf8EncodeChar
  simp only [hval]
  by_cases h1 : v ≤ 0x7F
  · rw [if_pos h1]
    refine ⟨_, _, rfl, ?_⟩
    rw [List.nil_append, piece_one (by omega), hchar]
    rfl
  by_cases h2 : v ≤ 0x7FF
  · rw [if_neg h1, if_pos h2]
    refine ⟨_, _, rfl, ?_⟩
    have hcode : (v / 64 % 32 + 192) % 32 * 64 + v % 64 = v := by omega
    rw [List.singleton_append, piece_more 0 (by omega) (width_two (by omega) (by omega))
      (secondFits_of (by omega) (by omega) (by omega) (by omega) (by omega) (by omega))]
    show extend ((v / 64 % 32 + 192) % 32 * 64 + v % 64) 0 1 rest = _
    rw [hcode, extend_zero, hchar]
    rfl
  by_cases h3 : v ≤ 0xFFFF
  · rw [if_neg h1, if_neg h2, if_pos h3]
    refine ⟨_, _, rfl, ?_⟩
    have hcode : ((v / 4096 % 16 + 224) % 16 * 64 + v / 64 % 64) * 64 + v % 64 = v := by omega
    rw [List.cons_append, List.singleton_append,
      piece_more 1 (by omega) (width_three (by omega) (by omega))
      (secondFits_of (by omega) (by omega) (by omega) (by omega) (by omega) (by omega))]
    show extend ((v / 4096 % 16 + 224) % 16 * 64 + v / 64 % 64) 1 1 _ = _
    rw [extend_tail, hcode, extend_zero, hchar]
    rfl
  · rw [if_neg h1, if_neg h2, if_neg h3]
    refine ⟨_, _, rfl, ?_⟩
    have hcode : (((v / 262144 % 8 + 240) % 8 * 64 + v / 4096 % 64) * 64 + v / 64 % 64) * 64 +
      v % 64 = v := by omega
    rw [List.cons_append, List.cons_append, List.singleton_append,
      piece_more 2 (by omega) (width_four (by omega) (by omega))
      (secondFits_of (by omega) (by omega) (by omega) (by omega) (by omega) (by omega))]
    show extend ((v / 262144 % 8 + 240) % 8 * 64 + v / 4096 % 64) 2 1 _ = _
    rw [extend_tail, extend_tail, hcode, extend_zero, hchar]
    rfl

/-! ## A text -/

theorem pieces_encodeChar (c : Char) (rest : List UInt8) :
    pieces (String.utf8EncodeChar c ++ rest) = some c :: pieces rest := by
  obtain ⟨first, more, hbytes, hpiece⟩ := piece_encodeChar c rest
  rw [hbytes, List.cons_append, pieces, hpiece]
  dsimp only
  rw [List.drop_left]

theorem pieces_encoded (chars : List Char) :
    pieces (chars.flatMap String.utf8EncodeChar) = chars.map some := by
  induction chars with
  | nil => simp [pieces]
  | cons c chars ih => rw [List.flatMap_cons, pieces_encodeChar, ih, List.map_cons]

theorem toList_encode (text : String) :
    (encode text).toList = text.toList.flatMap String.utf8EncodeChar := by
  have htext : text.toUTF8 = (text.toList.flatMap String.utf8EncodeChar).toByteArray := by
    conv => lhs; rw [← String.ofList_toList (s := text)]
    rfl
  rw [encode, htext]
  simp

/-- **An encoded text is decoded to itself.** -/
theorem decodeLossy_encode (text : String) : decodeLossy (encode text) = text := by
  unfold decodeLossy
  rw [toList_encode, pieces_encoded, List.map_map]
  show String.ofList (text.toList.map id) = text
  rw [List.map_id, String.ofList_toList]

theorem encode_append (s t : String) : encode (s ++ t) = encode s ++ encode t := by
  apply Array.toList_inj.mp
  rw [Array.toList_append, toList_encode, toList_encode, toList_encode, String.toList_append,
    List.flatMap_append]

/-! ## Characters of one byte -/

/-- Does every character take one byte? -/
def OneByte (chars : List Char) : Prop := ∀ c ∈ chars, c.utf8Size = 1

instance (chars : List Char) : Decidable (OneByte chars) := List.decidableBAll _ chars

section

variable {chars more : List Char} {c : Char}

theorem oneByte_nil : OneByte [] := nofun

theorem oneByte_cons : OneByte (c :: chars) ↔ c.utf8Size = 1 ∧ OneByte chars := List.forall_mem_cons

theorem oneByte_append : OneByte (chars ++ more) ↔ OneByte chars ∧ OneByte more := List.forall_mem_append

theorem OneByte.drop (h : OneByte chars) (n : Nat) : OneByte (chars.drop n) :=
  fun c hc => h c (List.mem_of_mem_drop hc)

theorem OneByte.flatMap_eq (h : OneByte chars) :
    chars.flatMap String.utf8EncodeChar = chars.map fun c => c.val.toUInt8 := by
  induction chars with
  | nil => rfl
  | cons c chars ih =>
    obtain ⟨hc, hchars⟩ := oneByte_cons.mp h
    rw [List.flatMap_cons, String.utf8EncodeChar_eq_singleton hc, ih hchars]
    rfl

theorem OneByte.drop_flatMap (h : OneByte chars) (n : Nat) :
    (chars.flatMap String.utf8EncodeChar).drop n = (chars.drop n).flatMap String.utf8EncodeChar := by
  rw [h.flatMap_eq, (h.drop n).flatMap_eq, List.map_drop]

theorem OneByte.size_encode {text : String} (h : OneByte text.toList) : (encode text).size = text.length := by
  rw [← Array.length_toList, toList_encode, h.flatMap_eq, List.length_map, String.length_toList]

end

end QpReferee.Utf8

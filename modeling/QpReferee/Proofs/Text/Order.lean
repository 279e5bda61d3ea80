import Mathlib.Tactic.SplitIfs
import QpReferee.Proofs.Text.Utf8

/-!
# The order of texts

Texts are compared by their characters, and their encodings by bytes. The orders agree: of two characters the
lower one has the lower byte where their bytes first differ, as a longer character starts with a higher byte.

* `encodeChar_append_lt` : the bytes of a lower character come first, whatever follows them.
* `encode_lt_encode` : **the bytes of texts are ordered as the texts are.**
-/

namespace QpReferee.Utf8

theorem cons_byte_lt {m n : Nat} {xs ys : List UInt8} (hn : n < 256) (hle : m ≤ n) (h : m = n → xs < ys) :
    UInt8.ofNat m :: xs < UInt8.ofNat n :: ys := by
  rw [List.cons_lt_cons_iff, UInt8.lt_iff_toNat_lt, toNat_byte (Nat.lt_of_le_of_lt hle hn), toNat_byte hn]
  rcases Nat.lt_or_eq_of_le hle with hlt | rfl
  · exact .inl hlt
  · exact .inr ⟨rfl, h rfl⟩

theorem encodeChar_append_lt {c d : Char} (h : c < d) (more rest : List UInt8) :
    String.utf8EncodeChar c ++ more < String.utf8EncodeChar d ++ rest := by
  have hlt : c.toNat < d.toNat := h
  have hvalid : d.toNat < 0xD800 ∨ 0xDFFF < d.toNat ∧ d.toNat < 0x110000 := d.valid
  have hc : c.val.toNat = c.toNat := rfl
  have hd : d.val.toNat = d.toNat := rfl
  unfold String.utf8EncodeChar
  simp only [hc, hd]
  generalize c.toNat = m at hlt ⊢
  generalize d.toNat = n at hlt hvalid ⊢
  -- a lower character is not longer; a shorter one differs in the first byte
  by_cases h1 : m ≤ 0x7F
  · rw [if_pos h1]
    split_ifs <;> exact cons_byte_lt (by omega) (by omega) fun heq => absurd heq (by omega)
  by_cases h2 : m ≤ 0x7FF
  · rw [if_neg h1, if_pos h2, if_neg (by omega : ¬n ≤ 0x7F)]
    split_ifs
    · refine cons_byte_lt (by omega) (by omega) fun hfirst => ?_
      exact cons_byte_lt (by omega) (by omega) fun hsecond => absurd hsecond (by omega)
    all_goals exact cons_byte_lt (by omega) (by omega) fun heq => absurd heq (by omega)
  by_cases h3 : m ≤ 0xFFFF
  · rw [if_neg h1, if_neg h2, if_pos h3, if_neg (by omega : ¬n ≤ 0x7F), if_neg (by omega : ¬n ≤ 0x7FF)]
    split_ifs
    · refine cons_byte_lt (by omega) (by omega) fun hfirst => ?_
      refine cons_byte_lt (by omega) (by omega) fun hsecond => ?_
      exact cons_byte_lt (by omega) (by omega) fun hthird => absurd hthird (by omega)
    · exact cons_byte_lt (by omega) (by omega) fun heq => absurd heq (by omega)
  · rw [if_neg h1, if_neg h2, if_neg h3, if_neg (by omega : ¬n ≤ 0x7F), if_neg (by omega : ¬n ≤ 0x7FF),
      if_neg (by omega : ¬n ≤ 0xFFFF)]
    refine cons_byte_lt (by omega) (by omega) fun hfirst => ?_
    refine cons_byte_lt (by omega) (by omega) fun hsecond => ?_
    refine cons_byte_lt (by omega) (by omega) fun hthird => ?_
    exact cons_byte_lt (by omega) (by omega) fun hfourth => absurd hfourth (by omega)

theorem flatMap_encodeChar_lt {cs ds : List Char} (h : cs < ds) :
    cs.flatMap String.utf8EncodeChar < ds.flatMap String.utf8EncodeChar := by
  induction cs generalizing ds with
  | nil =>
    cases ds with
    | nil => exact absurd h (List.lt_irrefl _)
    | cons d ds =>
      obtain ⟨first, more, hbytes, -⟩ := piece_encodeChar d []
      rw [List.flatMap_nil, List.flatMap_cons, hbytes]
      exact List.nil_lt_cons _ _
  | cons c cs ih =>
    cases ds with
    | nil => exact absurd h (List.not_lt_nil _)
    | cons d ds =>
      rw [List.flatMap_cons, List.flatMap_cons]
      rcases List.cons_lt_cons_iff.mp h with hlt | ⟨rfl, hrest⟩
      · exact encodeChar_append_lt hlt _ _
      · exact List.append_left_lt (ih hrest)

/-- **The bytes of texts are ordered as the texts are.** -/
theorem encode_lt_encode {s t : String} (h : s < t) : (encode s).toList < (encode t).toList := by
  rw [toList_encode, toList_encode]
  exact flatMap_encodeChar_lt (String.lt_iff.mp h)

end QpReferee.Utf8

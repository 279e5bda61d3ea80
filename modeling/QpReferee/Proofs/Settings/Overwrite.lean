import QpReferee.Proofs.Settings.File

/-!
# Settings written over others

Settings that are written at the start of a file take the place of as many characters as they have. What is
left behind them is the end of an older document, so if anything is left it ends with a closing brace. The
reader stops behind the first object, and finds the brace: it never takes a setting from the rest.

* `Settings.oneByte_toJson` : a document takes one byte for each character, so no character is cut.
* `Settings.overwritten`, `Settings.held` : a file after some settings were written at its start, and its text.
* `Settings.length_held_le_iff` : the text is as long as the longest document.
* `Settings.read_overwritten` : **the settings written last are read, or an error; never a mixture.**
-/

namespace QpReferee

open Utf8

open JsonText

namespace Settings

/-! ## Documents in bytes -/

theorem oneByte_membersText (s : Settings) (first : Bool) (settings : List Setting) :
    OneByte (s.membersText first settings) := by
  induction settings generalizing first with
  | nil => exact (by decide : OneByte ['}'])
  | cons setting settings ih =>
    have hcomma : OneByte (if first then [] else [',']) := by
      cases first <;> decide
    have hvalue : OneByte (s.valueText setting) := (s.conveys_valueText .empty setting).oneByte
    have hmember : OneByte (memberText setting (s.valueText setting)) :=
      oneByte_append.mpr ⟨setting.delimits_key.oneByte, oneByte_cons.mpr ⟨by decide, hvalue⟩⟩
    exact oneByte_append.mpr ⟨hcomma, oneByte_append.mpr ⟨hmember, ih false⟩⟩

theorem oneByte_toJson (s : Settings) : OneByte s.toJson.toList := by
  rw [toList_toJson]
  exact oneByte_cons.mpr ⟨by decide, s.oneByte_membersText true _⟩

theorem getLast?_membersText (s : Settings) (first : Bool) (settings : List Setting) :
    (s.membersText first settings).getLast? = some '}' := by
  induction settings generalizing first with
  | nil => rfl
  | cons setting settings ih =>
    rw [membersText, List.getLast?_append, List.getLast?_append, ih, Option.some_or, Option.some_or]

theorem getLast?_toJson (s : Settings) : s.toJson.toList.getLast? = some '}' := by
  rw [toList_toJson, List.getLast?_cons, s.getLast?_membersText]
  rfl

/-! ## The text of a file -/

/-- A file after some settings were written at its start, one after the other. -/
def overwritten (settings : List Settings) : ByteFile :=
  settings.foldl (fun file s => s.writeTo (file.seek 0)) .empty

/-- The text that such a file holds: each document takes the place of as many characters as it has. -/
def held (settings : List Settings) : List Char :=
  settings.foldl (fun text s => s.toJson.toList ++ text.drop s.toJson.length) []

variable {earlier settings : List Settings} {s : Settings}

theorem overwritten_concat : overwritten (earlier ++ [s]) = s.writeTo ((overwritten earlier).seek 0) :=
  List.foldl_concat _ _ _ _

theorem held_concat : held (earlier ++ [s]) = s.toJson.toList ++ (held earlier).drop s.toJson.length :=
  List.foldl_concat _ _ _ _

theorem oneByte_held (settings : List Settings) : OneByte (held settings) := by
  induction settings using List.reverseRecOn with
  | nil => exact oneByte_nil
  | append_singleton earlier s ih =>
    rw [held_concat]
    exact oneByte_append.mpr ⟨s.oneByte_toJson, ih.drop _⟩

theorem length_held_le_iff {n : ℕ} : (held settings).length ≤ n ↔ ∀ s ∈ settings, s.toJson.length ≤ n := by
  induction settings using List.reverseRecOn with
  | nil => simp [held]
  | append_singleton earlier s ih =>
    rw [held_concat, List.length_append, List.length_drop, String.length_toList, List.forall_mem_append, ← ih,
      List.forall_mem_singleton]
    omega

theorem getLast?_held (hne : settings ≠ []) : (held settings).getLast? = some '}' := by
  induction settings using List.reverseRecOn with
  | nil => exact absurd rfl hne
  | append_singleton earlier s ih =>
    rw [held_concat, List.getLast?_append, List.getLast?_drop, s.getLast?_toJson]
    split_ifs with hshort
    · rfl
    · have hearlier : earlier ≠ [] := by
        rintro rfl
        exact hshort (Nat.zero_le _)
      rw [ih hearlier, Option.some_or]

theorem skipBlank_drop_held {n : ℕ} (h : n < (held settings).length) :
    skipBlank ((held settings).drop n) ≠ [] := by
  have hne : settings ≠ [] := by
    rintro rfl
    exact Nat.not_lt_zero n h
  have hlast : ((held settings).drop n).getLast? = some '}' := by
    rw [List.getLast?_drop, if_neg (Nat.not_le.mpr h), getLast?_held hne]
  intro hblank
  have hbrace := List.dropWhile_eq_nil_iff.mp hblank '}' (List.mem_of_getLast? hlast)
  exact absurd hbrace (by decide)

/-- The step from one write to the next: the file stays without holes, and its bytes those of the text. -/
theorem bytes_overwritten (settings : List Settings) : (overwritten settings).IsSolid ∧
    (overwritten settings).bytes = (held settings).flatMap String.utf8EncodeChar := by
  induction settings using List.reverseRecOn with
  | nil => exact ⟨ByteFile.isSolid_empty, rfl⟩
  | append_singleton earlier s ih =>
    obtain ⟨hsolid, hbytes⟩ := ih
    rw [overwritten_concat, held_concat]
    refine ⟨(hsolid.seek 0).write (Nat.zero_le _) _, ?_⟩
    unfold writeTo
    rw [ByteFile.bytes_overwrite, hbytes, s.oneByte_toJson.size_encode, (oneByte_held earlier).drop_flatMap,
      toList_encode, List.flatMap_append]

/-! ## Reading -/

theorem readFrom_overwritten (settings : List Settings) : (readFrom ((overwritten settings).seek 0)).1 =
    (ofJson (String.ofList (held settings))).mapError .document := by
  obtain ⟨hsolid, hbytes⟩ := bytes_overwritten settings
  have hread : ((overwritten settings).seek 0).readRest.1 = encode (String.ofList (held settings)) := by
    apply Array.toList_inj.mp
    rw [ByteFile.toList_readRest, ByteFile.bytes_seek, hbytes, toList_encode, String.toList_ofList]
    rfl
  unfold readFrom
  dsimp only
  rw [(hsolid.seek 0).readBriefly, hread, decode?_encode]

theorem ofJson_append (s : Settings) (rest : List Char) : ofJson (String.ofList (s.toJson.toList ++ rest)) =
    if (skipBlank rest).isEmpty then ofJson s.toJson else .error (.json .malformed) := by
  have hread : read (String.ofList (s.toJson.toList ++ rest)) =
      if (skipBlank rest).isEmpty then .ok s.kept else .error .malformed := by
    unfold read readAll
    rw [String.toList_ofList, readValue_toJson]
    dsimp only
    split_ifs <;> rfl
  unfold ofJson
  rw [hread, read_toJson]
  split_ifs <;> rfl

/-- **The settings written last are read, or an error; never a mixture.** If no document that was written
before is longer, the file is read as if it held the last one alone. Otherwise the reader finds characters
behind it, and the data is invalid. So settings that are read are those of the last document, whatever was
written before. Lengths in characters are lengths in bytes (`oneByte_toJson`). -/
theorem read_overwritten (earlier : List Settings) (s : Settings) :
    (readFrom ((overwritten (earlier ++ [s])).seek 0)).1 =
        (if ∀ t ∈ earlier, t.toJson.length ≤ s.toJson.length then (readFrom ((s.writeTo .empty).seek 0)).1
        else .error (.document (.json .malformed))) ∧
      (∀ r, (readFrom ((overwritten (earlier ++ [s])).seek 0)).1 = .ok r →
        (readFrom ((s.writeTo .empty).seek 0)).1 = .ok r) ∧
      ∀ t ∈ earlier, s.toJson.length < t.toJson.length →
        ∃ e, (readFrom ((overwritten (earlier ++ [s])).seek 0)).1 = .error e ∧ e.kind = .invalidData := by
  have hread : (readFrom ((overwritten (earlier ++ [s])).seek 0)).1 =
      if (skipBlank ((held earlier).drop s.toJson.length)).isEmpty then
        (readFrom ((s.writeTo .empty).seek 0)).1 else .error (.document (.json .malformed)) := by
    rw [readFrom_overwritten, held_concat, ofJson_append, readFrom_writeTo]
    split_ifs <;> rfl
  rw [hread]
  by_cases h : ∀ t ∈ earlier, t.toJson.length ≤ s.toJson.length
  · have hrest : (skipBlank ((held earlier).drop s.toJson.length)).isEmpty = true := by
      rw [List.drop_of_length_le (length_held_le_iff.mpr h)]
      rfl
    rw [if_pos h, if_pos hrest]
    exact ⟨rfl, fun r hr => hr, fun t ht hlonger => absurd (h t ht) (Nat.not_le.mpr hlonger)⟩
  · have hrest : ¬(skipBlank ((held earlier).drop s.toJson.length)).isEmpty = true := by
      rw [List.isEmpty_iff]
      exact skipBlank_drop_held (Nat.lt_of_not_le (mt length_held_le_iff.mp h))
    rw [if_neg h, if_neg hrest]
    exact ⟨rfl, nofun, fun _ _ _ => ⟨_, rfl, rfl⟩⟩

/-- A brace of the longer document is left behind the shorter one; of the shorter one nothing is left. -/
theorem read_shorter :
    (readFrom ((overwritten [⟨some false, none, none, .always⟩, ⟨some true, none, none, .always⟩]).seek 0)).1 =
        .error (.document (.json .malformed)) ∧
      (readFrom ((overwritten [⟨some true, none, none, .always⟩, ⟨some false, none, none, .always⟩]).seek 0)).1 =
        .ok ⟨some false, none, none, .always⟩ := by
  have hfalse : (toJson ⟨some false, none, none, .always⟩).length = 85 := by
    rw [toJson, String.length_ofList]
    decide
  have htrue : (toJson ⟨some true, none, none, .always⟩).length = 84 := by
    rw [toJson, String.length_ofList]
    decide
  obtain ⟨hshorter, -⟩ := read_overwritten [⟨some false, none, none, .always⟩] ⟨some true, none, none, .always⟩
  obtain ⟨hlonger, -⟩ := read_overwritten [⟨some true, none, none, .always⟩] ⟨some false, none, none, .always⟩
  rw [if_neg (by rw [List.forall_mem_singleton, hfalse, htrue]; decide)] at hshorter
  rw [if_pos (by rw [List.forall_mem_singleton, hfalse, htrue]; decide), readFrom_writeTo, ofJson_toJson] at hlonger
  exact ⟨hshorter, hlonger⟩

end Settings

end QpReferee

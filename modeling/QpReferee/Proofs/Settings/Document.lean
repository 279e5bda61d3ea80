import QpReferee.Proofs.JsonText.Contract
import QpReferee.Settings.Document

/-!
# Settings are read back as written

The document of some settings is an object with one member for each of them. Its members are read one after
the other into the builder, each to the value that was written, with one exception: a time limit that is no
finite number is written as `null`, so it is open after it is read.

* `Settings.conveys_valueText` : the text of a value stands for giving the setting.
* `readMembers_member` : the step from one member to the next.
* `Settings.kept` : what a document keeps of some settings.
* `Settings.read_toJson` : **a document is read as what it keeps.**
* `Settings.toJson_stable` : **what is read from a document has the same document.**
-/

namespace QpReferee

open JsonText

/-! ## Settings -/

theorem readSetting_eq (b : Builder) (setting : Setting) (t : List Char) :
    readSetting b setting t = match setting with
      | .verbose => (readOptional readBool t).map fun p => ({ b with verbose := some p.1 }, p.2)
      | .timeLimit => (readOptional readFloat t).map fun p => ({ b with timeLimit := some p.1 }, p.2)
      | .highAccuracy => (readOptional readBool t).map fun p => ({ b with highAccuracy := some p.1 }, p.2)
      | .policy => (readVariant Policy.alternatives t).map fun p => ({ b with policy := some p.1 }, p.2) := by
  unfold readSetting
  cases setting with
  | verbose => cases readOptional readBool t <;> rfl
  | timeLimit => cases readOptional readFloat t <;> rfl
  | highAccuracy => cases readOptional readBool t <;> rfl
  | policy => cases readVariant Policy.alternatives t <;> rfl

theorem Setting.delimits_key (setting : Setting) :
    Delimits readKey (writePlain setting.key) setting.key.toList := by
  cases setting <;> exact JsonText.delimits_key (by decide) (by decide)

theorem Setting.ofKey?_key (setting : Setting) : ofKey? setting.key.toList = some setting := by
  cases setting <;> decide

theorem Policy.delimits_name (policy : Policy) :
    Delimits (readVariant Policy.alternatives) (writePlain policy.name) policy := by
  cases policy <;> exact JsonText.delimits_name (by decide) (by decide) (by decide)

namespace Settings

/-- What a document keeps of some settings: a time limit that is no finite number is left open. -/
def kept (s : Settings) : Settings := { s with timeLimit := s.timeLimit.filter Float.isFinite }

/-- The text of the value of a setting. -/
def valueText (s : Settings) : Setting → List Char
  | .verbose => writeOptional writeBool s.verbose
  | .timeLimit => writeOptional writeNumber s.timeLimit
  | .highAccuracy => writeOptional writeBool s.highAccuracy
  | .policy => writePlain s.policy.name

def give (s : Settings) (b : Builder) : Setting → Builder
  | .verbose => { b with verbose := some s.verbose }
  | .timeLimit => { b with timeLimit := some s.timeLimit }
  | .highAccuracy => { b with highAccuracy := some s.highAccuracy }
  | .policy => { b with policy := some s.policy }

/-- The text of a value stands for giving what the document keeps of the setting. -/
theorem conveys_valueText (s : Settings) (b : Builder) (setting : Setting) :
    Conveys (readSetting b setting) (s.valueText setting) (s.kept.give b setting) := by
  cases setting with
  | verbose =>
    exact (conveys_bool s.verbose).map (fun value => { b with verbose := some value }) (readSetting_eq b .verbose)
  | timeLimit =>
    exact (conveys_number s.timeLimit).map (fun value => { b with timeLimit := some value })
      (readSetting_eq b .timeLimit)
  | highAccuracy =>
    exact (conveys_bool s.highAccuracy).map (fun value => { b with highAccuracy := some value })
      (readSetting_eq b .highAccuracy)
  | policy =>
    exact s.policy.delimits_name.conveys.map (fun value => { b with policy := some value }) (readSetting_eq b .policy)

end Settings

/-! ## Members -/

def memberText (setting : Setting) (value : List Char) : List Char :=
  writePlain setting.key ++ ':' :: value

theorem readMember_memberText {b : Builder} {setting : Setting} (hopen : setting.isGiven b = false)
    (value rest : List Char) :
    readMember b (memberText setting value ++ rest) = readSetting b setting (value ++ rest) := by
  have hcolon : skipColon (':' :: value ++ rest) = .ok (value ++ rest) := rfl
  unfold memberText readMember
  rw [List.append_assoc, setting.delimits_key.reads]
  dsimp only
  rw [setting.ofKey?_key, readMemberValue, if_neg (by rw [hopen]; decide), hcolon]

theorem readMembers_member {b b' : Builder} {setting : Setting} {value rest : List Char} (first : Bool)
    (hopen : setting.isGiven b = false) (hvalue : readSetting b setting (value ++ rest) = .ok (b', rest)) :
    readMembers b first ((if first then [] else [',']) ++ (memberText setting value ++ rest)) =
      readMembers b' false rest := by
  have hmember := readMember_memberText hopen value rest
  rw [hvalue] at hmember
  have hitem : readSeparation .object first
      ((if first then [] else [',']) ++ (memberText setting value ++ rest)) =
        .ok (.item (memberText setting value ++ rest)) := by
    unfold memberText
    rw [List.append_assoc, writePlain_append]
    cases first <;> rfl
  rw [readMembers]
  split
  · next h => rw [hitem] at h; cases h
  · next h => rw [hitem] at h; cases h
  · next item h =>
    rw [hitem] at h
    cases h
    split
    · next h => rw [hmember] at h; cases h
    · next h =>
      rw [hmember] at h
      cases h
      rfl

namespace Settings

/-- The text of some members, from where a member or the end of the object is read. -/
def membersText (s : Settings) (first : Bool) : List Setting → List Char
  | [] => ['}']
  | setting :: settings => (if first then [] else [',']) ++
      (memberText setting (s.valueText setting) ++ s.membersText false settings)

theorem endsNumber_membersText (s : Settings) (settings : List Setting) (rest : List Char) :
    EndsNumber (s.membersText false settings ++ rest) := by
  cases settings <;> exact endsNumber_cons (by decide)

theorem isGiven_give {s : Settings} {b : Builder} {setting other : Setting} (hne : other ≠ setting)
    (hopen : other.isGiven b = false) : other.isGiven (s.give b setting) = false := by
  cases setting <;> cases other <;> first | exact absurd rfl hne | exact hopen

/-- The members of an object are given to the builder one after the other, whatever follows the object. -/
theorem readMembers_membersText (s : Settings) {settings : List Setting} (hnodup : settings.Nodup)
    (first : Bool) {b : Builder} (hopen : ∀ setting ∈ settings, setting.isGiven b = false) (rest : List Char) :
    readMembers b first (s.membersText first settings ++ rest) =
      .ok (settings.foldl s.kept.give b, rest) := by
  -- no setting is written twice, so the members that are still to come stay open
  induction settings generalizing first b with
  | nil =>
    rw [readMembers]
    rfl
  | cons setting settings ih =>
    obtain ⟨hnew, hnodup⟩ := List.nodup_cons.mp hnodup
    have hvalue := (s.conveys_valueText b setting).reads (s.endsNumber_membersText settings rest)
    rw [membersText, List.append_assoc, List.append_assoc,
      readMembers_member first (hopen setting List.mem_cons_self) hvalue, List.foldl_cons]
    refine ih hnodup false fun other hother => ?_
    exact isGiven_give (fun heq => hnew (heq ▸ hother)) (hopen other (List.mem_cons_of_mem _ hother))

theorem toList_toJson (s : Settings) : s.toJson.toList = '{' :: s.membersText true Setting.all := by
  have hmember (setting : Setting) (value : List Char) :
      writePlain setting.key ++ ':' :: value = memberText setting value := rfl
  unfold toJson writeObject
  rw [String.toList_ofList]
  simp only [List.map_cons, List.map_nil, joinComma, hmember, Setting.all, membersText, valueText,
    List.append_assoc, List.cons_append]
  rfl

theorem readValue_toJson (s : Settings) (rest : List Char) :
    readValue (s.toJson.toList ++ rest) = .ok (Setting.all.foldl s.kept.give .empty, rest) := by
  rw [toList_toJson]
  exact s.readMembers_membersText (by decide : Setting.all.Nodup) true
    (fun setting _ => by cases setting <;> rfl) rest

/-- **A document is read as what it keeps.** -/
theorem read_toJson (s : Settings) : read s.toJson = .ok s.kept := by
  have hvalue := s.readValue_toJson []
  rw [List.append_nil] at hvalue
  unfold read readAll
  rw [hvalue]
  rfl

theorem toJson_kept (s : Settings) : s.kept.toJson = s.toJson := by
  unfold toJson kept
  dsimp only
  rw [writeOptional_filter]

theorem toJson_eq_iff {s t : Settings} : s.toJson = t.toJson ↔ s.kept = t.kept := by
  constructor
  · intro h
    have hread := s.read_toJson
    rw [h, t.read_toJson] at hread
    exact (Except.ok.inj hread).symm
  · intro h
    rw [← s.toJson_kept, h, t.toJson_kept]

/-- **The document of some settings is a normal form.** It is read as settings with the same document, which
differ from the given ones only in a time limit that is no finite number; and two documents are the same only
if the settings differ in nothing else. -/
theorem toJson_stable (s : Settings) :
    ∃ r, read s.toJson = .ok r ∧
      r.verbose = s.verbose ∧ r.highAccuracy = s.highAccuracy ∧ r.policy = s.policy ∧
      (s.timeLimit = none → r.timeLimit = none) ∧
      (∀ limit, s.timeLimit = some limit → limit.isNaN = true ∨ limit.isInf = true → r.timeLimit = none) ∧
      (∀ limit, s.timeLimit = some limit → limit.isNaN = false → limit.isInf = false →
        r.timeLimit.map Float.toBits = some limit.toBits) ∧
      r.toJson = s.toJson ∧ ∀ t : Settings, t.toJson = s.toJson ↔ t.kept = r := by
  refine ⟨s.kept, s.read_toJson, rfl, rfl, rfl, ?_, ?_, ?_, s.toJson_kept, fun t => toJson_eq_iff⟩
  · intro h
    rw [kept, h, Option.filter_none]
  · intro limit h hspecial
    have hfinite : ¬limit.isFinite = true := by
      rw [Double.isFinite_iff]
      rcases hspecial with hnan | hinf
      · rw [hnan]
        exact fun h => Bool.false_ne_true h.1.symm
      · rw [hinf]
        exact fun h => Bool.false_ne_true h.2.symm
    rw [kept, h, Option.filter_some, if_neg hfinite]
  · intro limit h hnumber hbounded
    rw [kept, h, Option.filter_some, if_pos (Double.isFinite_iff.mpr ⟨hnumber, hbounded⟩), Option.map_some]

end Settings

end QpReferee

import Mathlib.Logic.Relation
import QpReferee.Proofs.Settings.Members

/-!
# Changes of a document that do not matter

Members that are given to the builder commute, since no two of them may be the same setting's, so their order
does not matter. And neither does a member that gives nothing, or the value that the setting has anyhow.

* `fillMembers_perm` : the order of members does not matter.
* `Edit` : one change of a document that must not matter.
* `Edit.ofMembers` : what one change keeps.
* `Settings.ofJson_edited` : **unknown keys, order, defaults and spacing are irrelevant.**
-/

namespace QpReferee

open JsonText

/-! ## Members commute -/

section

variable {b : Builder} {setting other : Setting} (s s' : Settings)

theorem isGiven_give_self (b : Builder) (setting : Setting) : setting.isGiven (s.give b setting) = true := by
  cases setting <;> rfl

theorem isGiven_give_ne (b : Builder) (hne : other ≠ setting) :
    other.isGiven (s.give b setting) = other.isGiven b := by
  cases setting <;> cases other <;> first | exact absurd rfl hne | rfl

theorem give_comm (b : Builder) (hne : other ≠ setting) :
    s'.give (s.give b setting) other = s.give (s'.give b other) setting := by
  cases setting <;> cases other <;> first | exact absurd rfl hne | rfl

end

/-- What a member does, whatever has been given: it is refused, or it gives nothing, or it gives one setting. -/
theorem fillMember_cases (m : Member) : (∀ b, fillMember b m = none) ∨ (∀ b, fillMember b m = some b) ∨
    ∃ setting s, ∀ b, fillMember b m =
      if setting.isGiven b = true then none else some (Settings.give s b setting) := by
  unfold fillMember
  cases Symbol.decode m.1 with
  | none => exact .inl fun b => rfl
  | some key =>
    simp only [Option.bind_some]
    cases Setting.ofKey? key with
    | none => exact .inr (.inl fun b => rfl)
    | some setting =>
      cases hgiven : setting.given? m.2 with
      | none => exact .inl fun b => by simp only [hgiven, Option.map_none, ite_self]
      | some s => exact .inr (.inr ⟨setting, s, fun b => by simp only [hgiven, Option.map_some]⟩)

theorem fillMember_comm (b : Builder) (m m' : Member) :
    (fillMember b m).bind (fillMember · m') = (fillMember b m').bind (fillMember · m) := by
  rcases fillMember_cases m with h | h | ⟨setting, s, h⟩
  · simp only [h, Option.bind_none, Option.bind_fun_none]
  · simp only [h, Option.bind_some, Option.bind_fun_some]
  · rcases fillMember_cases m' with h' | h' | ⟨other, s', h'⟩
    · simp only [h', Option.bind_none, Option.bind_fun_none]
    · simp only [h', Option.bind_some, Option.bind_fun_some]
    · simp only [h, h']
      by_cases hne : other = setting
      · -- the same setting twice is refused in either order
        subst hne
        split_ifs with hgiven
        · rfl
        · simp only [Option.bind_some, isGiven_give_self, if_true]
      · have hgiven := isGiven_give_ne s b hne
        have hgiven' := isGiven_give_ne s' b (Ne.symm hne)
        split_ifs with h₁ h₂ h₂
        · rfl
        · simp only [Option.bind_none, Option.bind_some, hgiven', h₁, if_true]
        · simp only [Option.bind_none, Option.bind_some, hgiven, h₂, if_true]
        · simp only [Option.bind_some, hgiven, hgiven', h₁, h₂, give_comm s s' b hne]

theorem fillMembers_perm {members members' : List Member} (h : members.Perm members') (b : Builder) :
    members.foldlM fillMember b = members'.foldlM fillMember b := by
  induction h generalizing b with
  | nil => rfl
  | cons m _ ih =>
    rw [List.foldlM_cons, List.foldlM_cons]
    exact congrArg _ (funext fun b => ih b)
  | swap m m' members =>
    simp only [List.foldlM_cons, Option.bind_eq_bind]
    rw [← Option.bind_assoc, ← Option.bind_assoc, fillMember_comm]
  | trans _ _ ih ih' => rw [ih, ih']

/-! ## Changes that do not matter -/

/-- A member whose key means something, but is no setting's. -/
def IsUnknown (m : Member) : Prop :=
  ∃ key, Symbol.decode m.1 = some key ∧ ∀ setting : Setting, setting.key.toList ≠ key

/-- The values that a setting has anyhow. -/
inductive IsDefault : Setting → Json → Prop
  | verbose : IsDefault .verbose .null
  | timeLimit : IsDefault .timeLimit .null
  | highAccuracy : IsDefault .highAccuracy .null
  | policy {symbols : List Symbol} (h : Symbol.decode symbols = some "always".toList) :
    IsDefault .policy (.string symbols)

/-- One change of the members of a document. -/
inductive Edit : List Member → List Member → Prop
  | permute {members members' : List Member} (h : members.Perm members') : Edit members members'
  | insertUnknown (before after : List Member) {m : Member} (h : IsUnknown m) :
    Edit (before ++ after) (before ++ m :: after)
  | dropUnknown (before after : List Member) {m : Member} (h : IsUnknown m) :
    Edit (before ++ m :: after) (before ++ after)
  | dropDefault (before after : List Member) {setting : Setting} {key : List Symbol} {v : Json}
    (hkey : Symbol.decode key = some setting.key.toList) (h : IsDefault setting v) :
    Edit (before ++ (key, v) :: after) (before ++ after)

theorem fillMember_unknown {m : Member} (h : IsUnknown m) (b : Builder) : fillMember b m = some b := by
  obtain ⟨key, hkey, hne⟩ := h
  have hnone : Setting.ofKey? key = none := by
    refine List.find?_eq_none.mpr fun setting _ heq => hne setting ?_
    exact eq_of_beq heq
  simp only [fillMember, hkey, Option.bind_some, hnone]

theorem given?_default {setting : Setting} {v : Json} (h : IsDefault setting v) :
    setting.given? v = some Settings.default := by
  cases h with
  | verbose | timeLimit | highAccuracy => rfl
  | @policy symbols h =>
    have hname : Json.toName? Policy.all Policy.name (.string symbols) = some Policy.always := by
      rw [Json.toName?, h, Option.bind_some]
      decide
    rw [Setting.given?, hname]
    rfl

theorem settings_give_default {b : Builder} {setting : Setting} (h : setting.isGiven b = false) :
    (Settings.default.give b setting).settings = b.settings := by
  obtain ⟨verbose, timeLimit, highAccuracy, policy⟩ := b
  cases setting with
  | verbose => cases verbose with
    | none => rfl
    | some => cases h
  | timeLimit => cases timeLimit with
    | none => rfl
    | some => cases h
  | highAccuracy => cases highAccuracy with
    | none => rfl
    | some => cases h
  | policy => cases policy with
    | none => rfl
    | some => cases h

theorem settings_fillMember_default {b b' : Builder} {setting : Setting} {key : List Symbol} {v : Json}
    (hkey : Symbol.decode key = some setting.key.toList) (h : IsDefault setting v)
    (hfill : fillMember b (key, v) = some b') : b'.settings = b.settings := by
  simp only [fillMember, hkey, Option.bind_some, setting.ofKey?_key, given?_default h, Option.map_some] at hfill
  split_ifs at hfill with hgiven
  cases hfill
  exact settings_give_default (Bool.eq_false_iff.mpr hgiven)

theorem ofMembers_unknown {before after : List Member} {m : Member} (h : IsUnknown m) :
    Settings.ofMembers (before ++ m :: after) = Settings.ofMembers (before ++ after) := by
  unfold Settings.ofMembers
  rw [fillMembers_perm List.perm_middle, List.foldlM_cons, fillMember_unknown h]
  rfl

theorem Edit.ofMembers {members members' : List Member} (h : Edit members members') {s : Settings}
    (hs : Settings.ofMembers members = some s) : Settings.ofMembers members' = some s := by
  cases h with
  | permute h =>
    unfold Settings.ofMembers at hs ⊢
    rwa [← fillMembers_perm h]
  | insertUnknown before after h => rwa [ofMembers_unknown h]
  | dropUnknown before after h => rwa [ofMembers_unknown h] at hs
  | @dropDefault before after setting key v hkey h =>
    unfold Settings.ofMembers at hs ⊢
    -- the member may as well be given last, when all the others have been
    have hlast : (before ++ (key, v) :: after).Perm (before ++ after ++ [(key, v)]) :=
      List.perm_middle.trans (List.perm_append_singleton _ _).symm
    rw [fillMembers_perm hlast, List.foldlM_append] at hs
    cases hfill : (before ++ after).foldlM fillMember .empty with
    | none =>
      rw [hfill] at hs
      cases hs
    | some b =>
      simp only [hfill, List.foldlM_cons, List.foldlM_nil, Option.bind_eq_bind, Option.bind_some,
        Option.pure_def, Option.bind_fun_some] at hs
      obtain ⟨b', hmember, rfl⟩ := Option.map_eq_some_iff.mp hs
      rw [Option.map_some, settings_fillMember_default hkey h hmember]

theorem ofMembers_edited {members members' : List Member} (h : Relation.ReflTransGen Edit members members')
    {s : Settings} (hs : Settings.ofMembers members = some s) : Settings.ofMembers members' = some s := by
  induction h with
  | refl => exact hs
  | tail _ h ih => exact h.ofMembers ih

/-- **Unknown keys, order, defaults and spacing are irrelevant.** A text that starts an object and is accepted
is an object, and the text of every object that comes from it by changes is accepted with the same settings. -/
theorem Settings.ofJson_edited {text : String} {s : Settings} {rest : List Char}
    (hobject : skipBlank text.toList = '{' :: rest) (haccepted : ofJson text = .ok s) :
    (∃ members, (Json.object members).Spells text) ∧
      ∀ (members members' : List Member) (text' : String), (Json.object members).Spells text →
        Relation.ReflTransGen Edit members members' → (Json.object members').Spells text' →
          ofJson text' = .ok s := by
  refine ⟨exists_members hobject (ofJson_eq_ok_iff.mp haccepted).1, ?_⟩
  intro members members' text' htext hedited htext'
  obtain ⟨hs, hvalid⟩ := (ofJson_spells htext).mp haccepted
  exact (ofJson_spells htext').mpr ⟨ofMembers_edited hedited hs, hvalid⟩

/-! ### A document with a note -/

/-- The symbols of a text in which nothing is escaped. -/
def plainSymbols (text : String) (h : text.toList.all isPlain = true) : List JsonText.Symbol :=
  text.toList.attach.map fun c => .plain c.1 (List.all_eq_true.mp h c.1 c.2)

def verboseMember : Member := (plainSymbols "verbose" (by decide), .bool true)

def alwaysMember : Member :=
  (plainSymbols "validation_policy" (by decide), .string (plainSymbols "always" (by decide)))

/-- A number out of range, and a key that is half of a surrogate pair. -/
def noteMember : Member :=
  (plainSymbols "note" (by decide), .list [
    .number ⟨⟨['1'], [], some ⟨'e', none, ['9', '9', '9'], rfl, List.cons_ne_nil _ _, List.all_eq_true.mp rfl⟩,
      ⟨List.all_eq_true.mp rfl, .inr ⟨'1', [], rfl, by decide⟩⟩, List.all_eq_true.mp rfl⟩, false⟩,
    .object [([.unit ⟨⟨'d', 13, rfl⟩, ⟨'8', 8, rfl⟩, ⟨'0', 0, rfl⟩, ⟨'0', 0, rfl⟩⟩], .null)]])

theorem isUnknown_note : IsUnknown noteMember := by
  refine ⟨"note".toList, by decide, fun setting => ?_⟩
  cases setting <;> decide

/-- The policy is left out, a note is written behind the other member, and blanks are put between all tokens. -/
theorem ofJson_edited_note :
    Settings.ofJson "\x7b\"validation_policy\":\"always\",\"verbose\":true\x7d" =
      .ok ⟨some true, none, none, .always⟩ ∧
    Settings.ofJson " \x7b \"verbose\" : true , \"note\" : [ 1e999 , \x7b \"\\ud800\" : null \x7d ] \x7d" =
      .ok ⟨some true, none, none, .always⟩ := by
  have htext : (Json.object [alwaysMember, verboseMember]).Spells
      "\x7b\"validation_policy\":\"always\",\"verbose\":true\x7d" :=
    spaced_flatMap (fun _ hc => absurd hc List.not_mem_nil) _
  have haccepted : Settings.ofJson "\x7b\"validation_policy\":\"always\",\"verbose\":true\x7d" =
      .ok ⟨some true, none, none, .always⟩ :=
    (Settings.ofJson_spells htext).mpr ⟨rfl, rfl⟩
  have hdrop : Edit [alwaysMember, verboseMember] [verboseMember] :=
    .dropDefault [] [verboseMember] (rfl : _ = some Setting.policy.key.toList) (.policy rfl)
  have hinsert : Edit [verboseMember] [verboseMember, noteMember] :=
    .insertUnknown [verboseMember] [] isUnknown_note
  have hblank : ∀ c ∈ [' '], isBlank c = true := List.all_eq_true.mp (by decide)
  have hedited := (Relation.ReflTransGen.single hdrop).tail hinsert
  exact ⟨haccepted, (Settings.ofJson_edited rfl haccepted).2 _ _ _ htext hedited (spaced_flatMap hblank _)⟩

end QpReferee

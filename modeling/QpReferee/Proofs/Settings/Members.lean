import QpReferee.Proofs.Settings.Document

/-!
# The members of a document

Whether an object gives settings, and which, is decided by its members as trees: each is given to the builder,
and a member that is not a setting's gives nothing. So blanks do not matter. And what is read as an object is
one, so this says of every accepted object what it means.

* `fillMember` : what a member gives to a builder.
* `Settings.read_spells` : **an object is read as its members, in any spacing.**
* `Settings.exists_members` : what is read as an object is one.
-/

namespace QpReferee

open JsonText

variable {ts : List (List Char)} {t : List Char}

/-! ## The values of settings -/

/-- The settings that a value gives to one setting, with the others left open. -/
def Setting.given? : Setting → Json → Option Settings
  | verbose, v => (v.toOption? Json.toBool?).map fun value => { Settings.default with verbose := value }
  | timeLimit, v => (v.toOption? Json.toFloat?).map fun value => { Settings.default with timeLimit := value }
  | highAccuracy, v => (v.toOption? Json.toBool?).map fun value => { Settings.default with highAccuracy := value }
  | policy, v => (v.toName? Policy.all Policy.name).map fun value => { Settings.default with policy := value }

theorem Setting.understands (b : Builder) (setting : Setting) :
    Understands (readSetting b setting) fun v => (setting.given? v).map fun s => s.give b setting := by
  have hput {α : Type} {read : List Char → Read α} {meaning : Json → Option α} (h : Understands read meaning)
      (f : α → Settings) (hread : ∀ t, readSetting b setting t = (read t).map fun p => ((f p.1).give b setting, p.2)) :
      Understands (readSetting b setting) fun v => ((meaning v).map f).map fun s => s.give b setting := by
    simp only [Option.map_map]
    exact h.map _ hread
  cases setting with
  | verbose =>
    exact hput understands_bool (fun value => { Settings.default with verbose := value }) (readSetting_eq b .verbose)
  | timeLimit =>
    exact hput understands_number (fun value => { Settings.default with timeLimit := value })
      (readSetting_eq b .timeLimit)
  | highAccuracy =>
    exact hput understands_bool (fun value => { Settings.default with highAccuracy := value })
      (readSetting_eq b .highAccuracy)
  | policy =>
    exact hput (understands_name Policy.all Policy.name) (fun value => { Settings.default with policy := value })
      (readSetting_eq b .policy)

/-! ## Members -/

/-- What a member gives to a builder. A setting is given once, a key has to mean something, and the value of a
member that is not a setting's need not. -/
def fillMember (b : Builder) (m : Member) : Option Builder :=
  (Symbol.decode m.1).bind fun key =>
    match Setting.ofKey? key with
    | none => some b
    | some setting =>
      if setting.isGiven b then none else (setting.given? m.2).map fun s => s.give b setting

theorem gives_readMember (b : Builder) {key : List Symbol} {v : Json} (hts : Follows ts)
    (h : Spaced (stringText key :: [':'] :: (v.tokens ++ ts)) t) :
    Gives (readMember b t) (fillMember b (key, v)) ts := by
  unfold readMember fillMember
  rcases (gives_readKey h).elim with ⟨hkey, e, hread⟩ | ⟨text, r, hkey, hread, hr⟩
  · simp only [hkey, hread]
    exact ⟨e, rfl⟩
  · obtain ⟨q, hcolon, hq⟩ := skipColon_spaced hr
    simp only [hkey, hread, Option.bind_some]
    unfold readMemberValue
    cases Setting.ofKey? text with
    | none =>
      obtain ⟨p, hskip, hp⟩ := v.skipValue_spaced hts hq
      simp only [hcolon, hskip]
      exact ⟨p, rfl, hp⟩
    | some setting =>
      simp only [hcolon]
      split_ifs
      · exact ⟨_, rfl⟩
      · exact (setting.understands b).reads v _ _ hts hq

theorem readSeparation_spaced (first : Bool) {key : List Symbol}
    (h : Spaced (commaTokens first ++ stringText key :: ts) t) :
    ∃ r, readSeparation .object first t = .ok (.item r) ∧ Spaced (stringText key :: ts) r := by
  cases first with
  | true =>
    obtain ⟨r, hblank, hr⟩ := Spaced.exists_skipBlank (show Spaced (stringText key :: ts) t from h) (by decide)
    refine ⟨_, ?_, spaced_cons (stringText key) hr⟩
    unfold readSeparation
    rw [hblank]
    rfl
  | false =>
    obtain ⟨r, hblank, hr⟩ := Spaced.exists_skipBlank (show Spaced ([','] :: stringText key :: ts) t from h)
      (by decide)
    obtain ⟨q, hblank', hq⟩ := hr.exists_skipBlank (by decide)
    refine ⟨_, ?_, spaced_cons (stringText key) hq⟩
    unfold readSeparation
    rw [hblank]
    dsimp only
    rw [List.nil_append, hblank']
    rfl

theorem gives_readMembers (b : Builder) (first : Bool) (members : List Member)
    (h : Spaced (memberTokens first members ++ ts) t) :
    Gives (readMembers b first t) (members.foldlM fillMember b) ts := by
  -- one member after the other, the text behind a member is the text of those that are left
  induction members generalizing b first t with
  | nil =>
    rw [memberTokens] at h
    obtain ⟨r, hblank, hr⟩ := h.exists_skipBlank (by decide)
    have hclosed : readSeparation .object first t = .ok (.closed r) := by
      unfold readSeparation
      rw [hblank]
      rfl
    refine ⟨r, ?_, hr⟩
    rw [readMembers]
    split
    · next heq => rw [hclosed] at heq; cases heq
    · next heq => rw [hclosed] at heq; cases heq; rfl
    · next heq => rw [hclosed] at heq; cases heq
  | cons member members ih =>
    obtain ⟨key, value⟩ := member
    rw [memberTokens, List.append_assoc, List.cons_append, List.cons_append, List.append_assoc] at h
    obtain ⟨item, hitem, hspaced⟩ := readSeparation_spaced first h
    have hmember := gives_readMember b (follows_memberTokens members ts) hspaced
    rw [readMembers, List.foldlM_cons]
    split
    · next heq => rw [hitem] at heq; cases heq
    · next heq => rw [hitem] at heq; cases heq
    · next heq =>
      rw [hitem] at heq
      cases heq
      rcases hmember.elim with ⟨hfill, e, hread⟩ | ⟨b', r, hfill, hread, hr⟩
      · rw [hfill]
        split
        · next heq => rw [hread] at heq; cases heq; exact ⟨e, rfl⟩
        · next heq => rw [hread] at heq; cases heq
      · rw [hfill]
        split
        · next heq => rw [hread] at heq; cases heq
        · next heq => rw [hread] at heq; cases heq; exact ih b' false hr

/-! ## Members that are read -/

section

variable {b b' : Builder} {s r : List Char}

theorem readMemberValue_eq_ok {setting : Option Setting} (h : readMemberValue b setting s = .ok (b', r)) :
    ∃ v : Json, Heads ([':'] :: v.tokens) s r := by
  unfold readMemberValue at h
  split at h
  · split_ifs at h
    split at h
    · cases h
    next hcolon =>
    obtain ⟨v, hv⟩ := (Setting.understands b _).takes _ _ _ h
    exact ⟨v, (skipColon_eq_ok hcolon).trans hv⟩
  · split at h
    · cases h
    next hcolon =>
    split at h
    · cases h
    next hskip =>
    cases h
    obtain ⟨v, hv⟩ := skipValue_eq_ok hskip
    exact ⟨v, (skipColon_eq_ok hcolon).trans hv⟩

theorem readMember_eq_ok (h : readMember b s = .ok (b', r)) :
    ∃ m : Member, Heads (stringText m.1 :: [':'] :: m.2.tokens) s r := by
  unfold readMember at h
  split at h
  · cases h
  · next hread =>
    obtain ⟨key, hkey⟩ := readKey_eq_ok hread
    obtain ⟨v, hv⟩ := readMemberValue_eq_ok h
    exact ⟨(key, v), hkey.trans hv⟩

theorem readSeparation_closed {bracket : Bracket} {first : Bool}
    (h : readSeparation bracket first s = .ok (.closed r)) : Heads [[bracket.closing]] s r := by
  unfold readSeparation at h
  split at h
  · cases h
  · next hblank =>
    split_ifs at h with hclosing hfirst hcomma
    · cases h
      exact heads_token (hblank.trans (by rw [hclosing]; rfl))
    · cases h
    · split at h
      · cases h
      · split_ifs at h
        cases h

theorem readSeparation_item {bracket : Bracket} {first : Bool}
    (h : readSeparation bracket first s = .ok (.item r)) : Heads (commaTokens first) s r := by
  unfold readSeparation at h
  split at h
  · cases h
  · next hblank =>
    split_ifs at h with hclosing hfirst hcomma
    · cases h
    · cases h
      rw [hfirst, ← hblank]
      exact Heads.of_skipBlank fun ts' hr => hr
    · split at h
      · cases h
      next hitem =>
      split_ifs at h
      cases h
      have htoken : Heads [[',']] s _ := heads_token (hblank.trans (by rw [hcomma]; rfl))
      rw [Bool.eq_false_iff.mpr hfirst, ← hitem]
      exact htoken.trans (Heads.of_skipBlank fun ts' hr => hr)

theorem readMembers_eq_ok {first : Bool} (h : readMembers b first s = .ok (b', r)) :
    ∃ members : List Member, Heads (memberTokens first members) s r := by
  fun_induction readMembers b first s with
  | case1 => cases h
  | case2 b first s rest hclosed =>
    cases h
    exact ⟨[], by rw [memberTokens]; exact readSeparation_closed hclosed⟩
  | case3 => cases h
  | case4 b first s item hitem b' rest hmember _ ih =>
    obtain ⟨m, hm⟩ := readMember_eq_ok hmember
    obtain ⟨members, hmembers⟩ := ih h
    have hall := (readSeparation_item hitem).trans (hm.trans hmembers)
    exact ⟨m :: members, by rw [memberTokens]; exact hall⟩

end

/-! ## Objects -/

/-- The settings of an object, if its members give any. -/
def Settings.ofMembers (members : List Member) : Option Settings :=
  (members.foldlM fillMember .empty).map Builder.settings

theorem Settings.read_spells {members : List Member} {text : String}
    (h : (Json.object members).Spells text) : (read text).toOption = ofMembers members := by
  have hspaced : Spaced (['{'] :: memberTokens true members) text.toList := by
    have htokens : (Json.object members).tokens = ['{'] :: memberTokens true members := by rw [Json.tokens]
    exact htokens ▸ h
  obtain ⟨s, hblank, hs⟩ := hspaced.exists_skipBlank (by decide)
  have hvalue : readValue text.toList = readMembers .empty true s := by
    unfold readValue
    rw [hblank]
    rfl
  have hmembers : Gives (readMembers .empty true s) (members.foldlM fillMember .empty) [] :=
    gives_readMembers .empty true members (by rwa [List.append_nil])
  unfold read readAll ofMembers
  rw [hvalue]
  rcases hmembers.elim with ⟨hfill, e, hread⟩ | ⟨b, r, hfill, hread, hr⟩
  · rw [hfill, hread]
    rfl
  · rw [hfill, hread]
    dsimp only
    rw [hr.skipBlank_nil]
    rfl

/-- An object that is read is an object. -/
theorem Settings.exists_members {text : String} {s : Settings} {rest : List Char}
    (hobject : skipBlank text.toList = '{' :: rest) (h : read text = .ok s) :
    ∃ members, (Json.object members).Spells text := by
  have hvalue : readValue text.toList = readMembers .empty true rest := by
    unfold readValue
    rw [hobject]
    rfl
  unfold read readAll at h
  rw [hvalue] at h
  split at h
  · cases h
  next hread =>
  split_ifs at h with hend
  · obtain ⟨members, hmembers⟩ := readMembers_eq_ok hread
    have hopening : Heads [['{']] text.toList _ := heads_token hobject
    have hblank : Spaced [] _ := Spaced.of_skipBlank (by
      rw [List.isEmpty_iff.mp hend]
      exact .nil (by simp))
    refine ⟨members, ?_⟩
    have hspaced := hopening.trans hmembers [] hblank
    rw [Json.Spells, Json.tokens]
    simpa using hspaced
  · cases h

theorem Settings.ofJson_eq_ok_iff {text : String} {s : Settings} :
    ofJson text = .ok s ↔ read text = .ok s ∧ s.validate = .ok () := by
  unfold ofJson
  cases read text with
  | error e => simp
  | ok s' =>
    simp only [Except.ok.injEq]
    constructor
    · intro h
      split at h
      · cases h
      · next hvalid => cases h; exact ⟨rfl, hvalid⟩
    · rintro ⟨rfl, hvalid⟩
      rw [hvalid]

theorem Settings.ofJson_spells {members : List Member} {text : String} {s : Settings}
    (h : (Json.object members).Spells text) :
    ofJson text = .ok s ↔ ofMembers members = some s ∧ s.validate = .ok () := by
  rw [ofJson_eq_ok_iff, ← read_spells h]
  cases read text <;> simp [Except.toOption]

end QpReferee

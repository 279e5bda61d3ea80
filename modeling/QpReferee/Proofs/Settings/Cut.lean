import QpReferee.Proofs.Settings.File

/-!
# Cut documents

A document of settings that is cut anywhere ends too early, and nothing else is said about it. The cut stands
in front of a member, in its key, in front of its value, in the value, or behind it; and a value that is read
to the end of the text leaves the object without its closing brace.

* `readMembers_cut` : cut members, one after the other.
* `Settings.read_cut` : **every proper beginning of a document is truncated.**
-/

namespace QpReferee

open JsonText

variable {p : List Char}

theorem readMembers_nil (b : Builder) (first : Bool) : readMembers b first [] = .error .truncated := by
  rw [readMembers]
  rfl

theorem readMembers_item {b : Builder} {first : Bool} {item : List Char}
    (hitem : readSeparation .object first p = .ok (.item item)) (h : ReachesEnd (readMember b item)) :
    readMembers b first p = .error .truncated := by
  rw [readMembers]
  split
  · next heq => rw [hitem] at heq; cases heq
  · next heq => rw [hitem] at heq; cases heq
  · next heq =>
    rw [hitem] at heq
    cases heq
    rcases h with herror | ⟨b', hread⟩
    · split
      · next heq => rw [herror] at heq; cases heq; rfl
      · next heq => rw [herror] at heq; cases heq
    · split
      · next heq => rw [hread] at heq; cases heq
      · next heq =>
        rw [hread] at heq
        cases heq
        exact readMembers_nil _ _

theorem readMember_cut {b : Builder} {setting : Setting} (hopen : setting.isGiven b = false) {value : List Char}
    (hvalue : ∀ q, IsCut q value → ReachesEnd (readSetting b setting q))
    (h : IsCut p (memberText setting value)) : ReachesEnd (readMember b p) := by
  unfold readMember
  rcases h.of_append with hcut | ⟨q, rfl, hq⟩
  · exact .inl (by rw [setting.delimits_key.cut hcut])
  · rw [setting.delimits_key.reads]
    dsimp only
    rw [setting.ofKey?_key, readMemberValue, if_neg (by rw [hopen]; decide)]
    rcases hq.of_cons with rfl | ⟨r, rfl, hr⟩
    · exact .inl rfl
    · exact hvalue r hr

namespace Settings

theorem readMembers_cut (s : Settings) {settings : List Setting} (hnodup : settings.Nodup) (first : Bool)
    {b : Builder} (hopen : ∀ setting ∈ settings, setting.isGiven b = false)
    (h : IsCut p (s.membersText first settings)) : readMembers b first p = .error .truncated := by
  -- a cut behind the first member is a cut of the members that follow, and these are still open
  induction settings generalizing first b p with
  | nil =>
    rw [h.of_singleton, readMembers_nil]
  | cons setting settings ih =>
    obtain ⟨hnew, hnodup⟩ := List.nodup_cons.mp hnodup
    have hsetting := hopen setting List.mem_cons_self
    rw [membersText] at h
    rcases h.of_append with hcomma | ⟨q, rfl, hq⟩
    · have hp : p = [] := by
        cases first with
        | true => exact absurd hcomma not_isCut_nil
        | false => exact hcomma.of_singleton
      rw [hp, readMembers_nil]
    · rcases hq.of_append with hmember | ⟨q, rfl, hrest⟩
      · by_cases hq : q = []
        · subst hq
          rw [readMembers]
          cases first <;> rfl
        · have hitem : readSeparation .object first ((if first then [] else [',']) ++ q) = .ok (.item q) := by
            rcases hmember.of_append with hkey | ⟨q, rfl, -⟩
            · obtain ⟨q, rfl, -⟩ := hkey.of_cons.resolve_left hq
              cases first <;> rfl
            · rw [writePlain_append]
              cases first <;> rfl
          exact readMembers_item hitem (readMember_cut hsetting (fun _ => (s.conveys_valueText b setting).cut) hmember)
      · have hends := s.endsNumber_membersText settings []
        rw [List.append_nil] at hends
        have hvalue := (s.conveys_valueText b setting).reads (hrest.endsNumber hends)
        rw [readMembers_member first hsetting hvalue]
        refine ih hnodup false (fun other hother => ?_) hrest
        exact isGiven_give (fun heq => hnew (heq ▸ hother)) (hopen other (List.mem_cons_of_mem _ hother))

theorem readValue_cut (s : Settings) (h : IsCut p s.toJson.toList) : readValue p = .error .truncated := by
  rw [toList_toJson] at h
  rcases h.of_cons with rfl | ⟨q, rfl, hq⟩
  · rfl
  · exact s.readMembers_cut (by decide) true (b := .empty) (fun setting _ => by cases setting <;> rfl) hq

/-- **Every proper beginning of a document is truncated**, whether it is read as a text or from a file, and the
kind of the failure is that of an early end, which is that of no other failure. -/
theorem read_cut (s : Settings) (beginning : String) (hbeginning : beginning.toList <+: s.toJson.toList)
    (hproper : beginning ≠ s.toJson) :
    (ofJson beginning = .error (.json .truncated) ∧
      (readFrom ((ByteFile.empty.write (Utf8.encode beginning)).seek 0)).1 =
        .error (.document (.json .truncated))) ∧
      (∀ e, ofJson beginning = .error e → e.kind = .unexpectedEof) ∧
      ∀ e, (readFrom ((ByteFile.empty.write (Utf8.encode beginning)).seek 0)).1 = .error e →
        e.kind = .unexpectedEof := by
  have hcut : IsCut beginning.toList s.toJson.toList :=
    ⟨hbeginning, fun h => hproper (String.toList_inj.mp h)⟩
  have hread : ofJson beginning = .error (.json .truncated) := by
    unfold ofJson read readAll
    rw [s.readValue_cut hcut]
    rfl
  have hreadFrom : (readFrom ((ByteFile.empty.write (Utf8.encode beginning)).seek 0)).1 =
      .error (.document (.json .truncated)) := by
    unfold readFrom
    dsimp only
    rw [ByteFile.readBriefly_write, Utf8.decode?_encode]
    dsimp only
    rw [hread]
    rfl
  refine ⟨⟨hread, hreadFrom⟩, fun e he => ?_, fun e he => ?_⟩
  · exact DocumentError.kind_eq_unexpectedEof_iff.mpr (Except.error.inj (he.symm.trans hread))
  · exact FileError.kind_eq_unexpectedEof_iff.mpr (Except.error.inj (he.symm.trans hreadFrom))

/-- A document that is cut behind the sign of an exponent. -/
theorem read_cut_exponent :
    ofJson "\x7b\"verbose\":true,\"time_limit\":1e+" = .error (.json .truncated) ∧
      DocumentError.kind (.json .truncated) = .unexpectedEof := by
  obtain ⟨⟨hread, -⟩, hkind, -⟩ := read_cut ⟨some true, some 1e300, none, .always⟩
    "\x7b\"verbose\":true,\"time_limit\":1e+" (by decide +kernel) (by decide +kernel)
  exact ⟨hread, hkind _ hread⟩

end Settings

end QpReferee

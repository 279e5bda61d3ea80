import QpReferee.Proofs.Adapter.Records
import QpReferee.Proofs.Kkt.Tiers

/-!
# Stricter settings

Settings are tightened by asking for high accuracy, by asking for every solution to be checked, or by
both. The engine does not see any of it, so two runs that differ only in this way get the same answers. A
solution that is refused is refused under the tightened settings too: the check is asked for more often,
and what the high tier accepts the standard tier accepts. So a tightened call differs at most in a status
that becomes a solver error.

* `Settings.Tightens` : what tightened settings are.
* `Answers.Refused.tightened` : refused solutions stay refused.
* `Answers.outcome_tightened` : the outcomes for the same answers.
* `Adapter.tightened_settings` : **tightened settings change no record but by a solver error.**
-/

namespace QpReferee

variable {σ T W : Type}

/-- The second settings are the first ones, with high accuracy or with every solution checked, or with
both. -/
structure Settings.Tightens (s s' : Settings) : Prop where
  verbose : s'.verbose = s.verbose
  timeLimit : s'.timeLimit = s.timeLimit
  highAccuracy : s'.highAccuracy = s.highAccuracy ∨ s'.highAccuracy = some true
  policy : s'.policy = s.policy ∨ s'.policy = .always

namespace Settings.Tightens

variable {s s' : Settings}

theorem tier (h : s.Tightens s') : s'.tier = s.tier ∨ s.tier = .standard ∧ s'.tier = .high := by
  unfold Settings.tier
  rcases h.highAccuracy with heq | hhigh
  · rw [heq]
    exact .inl rfl
  · rw [hhigh]
    by_cases hs : s.highAccuracy.getD false = true
    · rw [if_pos hs]
      exact .inl rfl
    · rw [if_neg hs]
      exact .inr ⟨rfl, rfl⟩

theorem isLate_iff (h : s.Tightens s') {seconds : Float} : s'.IsLate seconds ↔ s.IsLate seconds := by
  unfold Settings.IsLate
  rw [h.timeLimit]

theorem finalStatus_eq_or {T : Type} (h : s.Tightens s') {status : Status} {failed failed' : Bool}
    {c : Candidate T} {seconds : Float} (hfailed : failed = true → failed' = true) :
    finalStatus s' status failed' c seconds = finalStatus s status failed c seconds ∨
      finalStatus s' status failed' c seconds = .solverError := by
  by_cases hlate : s.IsLate seconds
  · rw [finalStatus_of_late hlate, finalStatus_of_late (h.isLate_iff.mpr hlate)]
    exact .inl rfl
  · have hlate' : ¬s'.IsLate seconds := mt h.isLate_iff.mp hlate
    by_cases hrefused : failed = true ∨ c.Incomplete
    · rw [finalStatus_of_failed hlate hrefused, finalStatus_of_failed hlate' (hrefused.imp_left hfailed)]
      exact .inl rfl
    · rw [finalStatus_of_kept hlate hrefused]
      by_cases hrefused' : failed' = true ∨ c.Incomplete
      · exact .inr (finalStatus_of_failed hlate' hrefused')
      · exact .inl (finalStatus_of_kept hlate' hrefused')

end Settings.Tightens

/-- The second record is the first one, but for a status that may have become a solver error; it has not
if the call was late. -/
structure Record.Tightened (s : Settings) (r r' : Record T) : Prop where
  objective : r'.objective = r.objective
  x : r'.x = r.x
  y : r'.y = r.y
  runTime : r'.runTime = r.runTime
  iterations : r'.iterations = r.iterations
  status : r'.status = r.status ∨ r'.status = .solverError
  error : r.status = .solverError → r'.status = .solverError
  late : (∃ seconds, r.runTime = some seconds ∧ s.IsLate seconds) →
    r.status = .timeLimit ∧ r'.status = .timeLimit

namespace Answers

variable [BinaryScalar T] {w : Answers T W} {s s' : Settings} {table : W → Status} {p : Problem T}
  {laps : Laps}

theorem exists_told {r : Record T} (h : w.outcome s table p laps = .ok r) (hcompleted : w.Completed) :
    ∃ objective word info, w.solve = .ok (.ok objective) ∧ w.status = .ok word ∧ w.info = .ok info := by
  obtain ⟨objective, hsolve⟩ := hcompleted
  unfold Answers.outcome at h
  rw [hsolve] at h
  obtain ⟨word, hword, h⟩ := Checked.bind_eq_ok.mp h
  obtain ⟨info, hinfo, -⟩ := Checked.bind_eq_ok.mp h
  exact ⟨objective, word, info, hsolve, hword, hinfo⟩

variable [OrderedScalar T] [OrderedTiers T]

theorem Refused.tightened (h : s.Tightens s') (hp : p.Built) {status : Status}
    (hrefused : w.Refused s p status) : w.Refused s' p status := by
  obtain ⟨hneeded, failure, hcheck⟩ := hrefused
  refine ⟨?_, ?_⟩
  · rcases h.policy with heq | halways
    · rw [heq]
      exact hneeded
    · exact .inr (.inr halways)
  · rcases h.tier with heq | ⟨hstandard, hhigh⟩
    · rw [heq]
      exact ⟨failure, hcheck⟩
    · rw [hstandard] at hcheck
      rw [hhigh]
      obtain ⟨verdict, hverdict⟩ := Kkt.exists_check hp w.candidate .high
      cases verdict with
      | error failure' => exact ⟨failure', hverdict⟩
      | ok residuals =>
        rw [Kkt.check_standard_of_high hverdict] at hcheck
        cases hcheck

theorem outcome_tightened (h : s.Tightens s') (hp : p.Built) {r : Record T}
    (hr : w.outcome s table p laps = .ok r) :
    ∃ r', w.outcome s' table p laps = .ok r' ∧ r.Tightened s r' := by
  by_cases hcompleted : w.Completed
  · obtain ⟨objective, word, info, hsolve, hword, hinfo⟩ := exists_told hr hcompleted
    obtain ⟨failed, hfailed, houtcome⟩ := exists_outcome s table laps hp hsolve hword hinfo
    obtain ⟨failed', hfailed', houtcome'⟩ := exists_outcome s' table laps hp hsolve hword hinfo
    rw [houtcome] at hr
    cases hr
    have himp : failed = true → failed' = true := by
      intro hrefused
      exact hfailed'.mpr ((hfailed.mp hrefused).tightened h hp)
    refine ⟨_, houtcome', ?_⟩
    rw [record_eq, record_eq]
    refine ⟨rfl, rfl, rfl, rfl, rfl, ?_, ?_, ?_⟩
    · exact h.finalStatus_eq_or himp
    · intro herror
      rcases h.finalStatus_eq_or himp with heq | herror'
      · exact heq.trans herror
      · exact herror'
    · rintro ⟨seconds, hseconds, hlate⟩
      cases hseconds
      exact ⟨finalStatus_of_late hlate, finalStatus_of_late (h.isLate_iff.mpr hlate)⟩
  · rw [outcome_of_failed hcompleted] at hr
    cases hr
    refine ⟨.failed, outcome_of_failed hcompleted, rfl, rfl, rfl, rfl, rfl, .inl rfl, id, ?_⟩
    rintro ⟨seconds, hseconds, -⟩
    cases hseconds

end Answers

namespace Adapter

variable [BinaryScalar T] [OrderedScalar T] [OrderedTiers T]

/-- **Tightened settings change no record but by a solver error.** Two adapters that differ only in that
the second asks for high accuracy, or for every solution to be checked, or for both, are called in the
same way. At every call either the same panic escapes from both, or both return a record; the objective,
the vectors, the run time and the iterations are the same, and the second status is the first one or a
solver error. It is the first one if that is a solver error or if the call was late. The scalars may be
exact or those of either floating point type, whose comparisons survive rounding and overflow. -/
theorem tightened_settings (a : Adapter σ T W) {s : Settings} (htightens : a.settings.Tightens s)
    {calls : List (Call T)} {i : Nat} {call : Call T} (hcall : calls[i]? = some call)
    (hbuilt : call.problem.Built) :
    (∀ panic, (a.run calls).2[i]? = some (.error panic) ↔
      ({ a with settings := s }.run calls).2[i]? = some (.error panic)) ∧
    ∀ r, (a.run calls).2[i]? = some (.ok r) →
      ∃ r', ({ a with settings := s }.run calls).2[i]? = some (.ok r') ∧ r.Tightened a.settings r' := by
  have hsame : a.SameEngine { a with settings := s } := by
    refine ⟨rfl, rfl, ?_⟩
    show s.isVerbose = a.settings.isVerbose
    unfold Settings.isVerbose
    rw [htightens.verbose]
  have hanswers := answersAt_congr hsame calls i call.problem
  rw [outcome_of_run a hcall, outcome_of_run { a with settings := s } hcall, hanswers]
  refine ⟨fun panic => ?_, fun r hr => ?_⟩
  · rw [Option.some.injEq, Option.some.injEq, Answers.outcome_eq_error_iff hbuilt,
      Answers.outcome_eq_error_iff hbuilt]
  · obtain ⟨r', hr', htightened⟩ := Answers.outcome_tightened htightens hbuilt (Option.some.inj hr)
    exact ⟨r', congrArg some hr', htightened⟩

/-- An adapter whose engine finds a solution to three places. -/
def threePlaces : Adapter Unit Float Status :=
  .new "MOCK" (Answers.engine ⟨.ok (.ok 1), .ok .optimal, .ok .unknown,
    .ok ⟨some [1.0001], some [2]⟩⟩) id ⟨none, none, none, .solutionPresent⟩ ()

/-- What it is asked for under the tightened settings. -/
def threePlacesStrict : Settings := ⟨none, none, some true, .always⟩

/-- The solution passes the check, and is refused under the tightened settings. -/
theorem threePlaces_tightened : ∃ r r', (threePlaces.run [squareCall]).2[0]? = some (.ok r) ∧
    ({ threePlaces with settings := threePlacesStrict }.run [squareCall]).2[0]? = some (.ok r') ∧
      r.Tightened threePlaces.settings r' ∧ r.status = .optimal ∧ r'.status = .solverError := by
  have htightens : threePlaces.settings.Tightens threePlacesStrict := ⟨rfl, rfl, .inr rfl, .inr rfl⟩
  have hpassed : ((threePlaces.run [squareCall]).2[0]?.bind Except.toOption).any
      (fun r => r.status = .optimal) = true := by
    decide +kernel
  have hrefused : (({ threePlaces with settings := threePlacesStrict }.run [squareCall]).2[0]?.bind
      Except.toOption).any (fun r => r.status = .solverError) = true := by
    decide +kernel
  obtain ⟨r, hr, hoptimal⟩ := exists_returned hpassed
  obtain ⟨r', hr', herror⟩ := exists_returned hrefused
  obtain ⟨-, hrecords⟩ := tightened_settings threePlaces htightens
    (show [squareCall][0]? = some squareCall from rfl) squareCall_built
  obtain ⟨r'', hr'', htightened⟩ := hrecords r hr
  rw [hr'] at hr''
  obtain rfl : r' = r'' := Except.ok.inj (Option.some.inj hr'')
  exact ⟨r, r', hr, hr', htightened, of_decide_eq_true hoptimal, of_decide_eq_true herror⟩

end Adapter

end QpReferee

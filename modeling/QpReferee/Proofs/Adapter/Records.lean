import QpReferee.Proofs.Adapter.Panics
import QpReferee.Proofs.Timing.Report

/-!
# Records and their statuses

On a built problem a call whose engine tells its status and its statistics returns a record. If the solve
did not complete, the record is the one of a failed engine. If it did, the record holds what the engine
told, and its status follows from three questions in a fixed order: was the call late, is a vector missing
or was the solution refused, and what is the status of the engine's word.

* `EngineInfo.spent`, `Settings.IsLate`, `Candidate.Incomplete`, `Answers.Refused` : what is asked.
* `finalStatus_of_late`, `finalStatus_of_failed`, `finalStatus_of_kept` : the three answers.
* `Adapter.exists_record` : the record of a call, in terms of the engine's answers.
* `Adapter.status_precedence` : **the order in which the status is decided.**
* `Adapter.record_shape` : **what a record holds.**
-/

namespace QpReferee

variable {σ T W : Type}

/-! ## What decides a status -/

/-- The run time: what the engine tells of setup and solve, or what the clock says if it does not tell
both. -/
def EngineInfo.spent (info : EngineInfo) (laps : Laps) : Float :=
  match info.setupTime, info.solveTime with
  | some setup, some solve => setup + solve
  | _, _ => Duration.seconds ⟨laps.solve.ended - laps.solve.began⟩

theorem elapsed_lap (span : Span) :
    (Stopwatches.empty.lap "solve" span).elapsed "solve" = ⟨span.ended - span.began⟩ :=
  span.duration.zero_add

theorem EngineInfo.runTime_getD (info : EngineInfo) (laps : Laps) :
    info.runTime.getD ((Stopwatches.empty.lap "solve" laps.solve).elapsed "solve").seconds =
      info.spent laps := by
  rw [elapsed_lap]
  obtain ⟨setup, solve, iterations⟩ := info
  cases setup <;> cases solve <;> rfl

/-- Does a run time exceed the time limit, if one is set? -/
def Settings.IsLate (s : Settings) (seconds : Float) : Prop :=
  ∃ limit, s.timeLimit = some limit ∧ limit < seconds

theorem Settings.exceeded_iff {s : Settings} {seconds : Float} :
    s.exceeded seconds = true ↔ s.IsLate seconds := by
  unfold Settings.exceeded Settings.IsLate
  cases s.timeLimit with
  | none => simp
  | some limit => simp

def Candidate.Incomplete (c : Candidate T) : Prop := c.x = none ∨ c.y = none

section

variable {s : Settings} {status : Status} {failed : Bool} {c : Candidate T} {seconds : Float}

theorem finalStatus_of_late (h : s.IsLate seconds) :
    finalStatus s status failed c seconds = .timeLimit := by
  unfold finalStatus
  rw [if_pos (Settings.exceeded_iff.mpr h)]

theorem failed_or_incomplete :
    (failed || c.x.isNone || c.y.isNone) = true ↔ failed = true ∨ c.Incomplete := by
  simp [Candidate.Incomplete, or_assoc]

theorem finalStatus_of_failed (hlate : ¬s.IsLate seconds) (h : failed = true ∨ c.Incomplete) :
    finalStatus s status failed c seconds = .solverError := by
  unfold finalStatus
  rw [if_neg (mt Settings.exceeded_iff.mp hlate), if_pos (failed_or_incomplete.mpr h)]

theorem finalStatus_of_kept (hlate : ¬s.IsLate seconds) (h : ¬(failed = true ∨ c.Incomplete)) :
    finalStatus s status failed c seconds = status := by
  unfold finalStatus
  rw [if_neg (mt Settings.exceeded_iff.mp hlate), if_neg (mt failed_or_incomplete.mp h)]

theorem finalStatus_cases : finalStatus s status failed c seconds = status ∨
    finalStatus s status failed c seconds = .solverError ∨
      finalStatus s status failed c seconds = .timeLimit := by
  unfold finalStatus
  split_ifs
  · exact .inr (.inr rfl)
  · exact .inr (.inl rfl)
  · exact .inl rfl

end

/-! ## One call -/

theorem Settings.needsCheck_iff {s : Settings} {status : Status} : s.needsCheck status = true ↔
    status = .optimal ∨ status = .optimalInaccurate ∨ s.policy = .always := by
  unfold Settings.needsCheck
  cases s.policy with
  | always => simp
  | solutionPresent => cases status <;> simp [Status.isOptimal]

namespace Answers

/-- The solve gave a value of the objective. -/
def Completed (w : Answers T W) : Prop := ∃ objective, w.solve = .ok (.ok objective)

theorem record_eq (w : Answers T W) (s : Settings) (laps : Laps) (objective : T) (status : Status)
    (info : EngineInfo) (failed : Bool) : w.record s laps objective status info failed =
      ⟨finalStatus s status failed w.candidate (info.spent laps), some objective, w.candidate.x,
        w.candidate.y, some (info.spent laps), info.iterations⟩ := by
  unfold Answers.record
  simp only [EngineInfo.runTime_getD]

variable [BinaryScalar T] {w : Answers T W} {s : Settings} {table : W → Status} {p : Problem T}
  {laps : Laps} {status : Status}

def Refused (w : Answers T W) (s : Settings) (p : Problem T) (status : Status) : Prop :=
  (status = .optimal ∨ status = .optimalInaccurate ∨ s.policy = .always) ∧
    ∃ failure, Kkt.check p w.candidate s.tier = .ok (.error failure)

theorem failure_isSome_iff {failure : Option (Failure T)} (h : w.failure s p status = .ok failure) :
    failure.isSome = true ↔ w.Refused s p status := by
  unfold Refused
  rw [← Settings.needsCheck_iff]
  unfold Answers.failure at h
  by_cases hneeded : s.needsCheck status = true
  · rw [if_pos hneeded] at h
    rw [and_iff_right hneeded]
    split at h
    · cases h
    · rename_i failure' hcheck
      cases h
      exact iff_of_true rfl ⟨failure', hcheck⟩
    · rename_i residuals hcheck
      cases h
      simp [hcheck]
  · rw [if_neg hneeded] at h
    cases h
    simp [hneeded]

theorem outcome_of_failed (h : ¬w.Completed) : w.outcome s table p laps = .ok .failed := by
  unfold Answers.outcome
  split
  · rename_i objective hsolve
    exact absurd ⟨objective, hsolve⟩ h
  · rfl

theorem exists_outcome (s : Settings) (table : W → Status) (laps : Laps) (hp : p.Built) {objective : T}
    {word : W} {info : EngineInfo} (hsolve : w.solve = .ok (.ok objective)) (hword : w.status = .ok word)
    (hinfo : w.info = .ok info) :
    ∃ failed, (failed = true ↔ w.Refused s p (table word)) ∧
      w.outcome s table p laps = .ok (w.record s laps objective (table word) info failed) := by
  obtain ⟨failure, hfailure⟩ := exists_failure hp w s (table word)
  refine ⟨failure.isSome, failure_isSome_iff hfailure, ?_⟩
  unfold Answers.outcome
  rw [hsolve, hword, hinfo]
  dsimp only [Checked.ok_bind]
  rw [hfailure]
  rfl

end Answers

namespace Adapter

variable [BinaryScalar T] {calls : List (Call T)} {i : Nat} {call : Call T} {w : Answers T W} {word : W}
  {info : EngineInfo}

/-- The record of a call, in terms of the engine's answers. -/
theorem exists_record (a : Adapter σ T W) (hcall : calls[i]? = some call) (hbuilt : call.problem.Built)
    (hanswers : a.answersAt calls i call.problem = w) (hword : w.status = .ok word)
    (hinfo : w.info = .ok info) :
    ∃ r, (a.run calls).2[i]? = some (.ok r) ∧ (¬w.Completed ∧ r = .failed ∨
      ∃ objective failed, w.solve = .ok (.ok objective) ∧
        (failed = true ↔ w.Refused a.settings call.problem (a.table word)) ∧
        r = w.record a.settings call.laps objective (a.table word) info failed) := by
  have hreturned := outcome_of_run a hcall
  rw [hanswers] at hreturned
  by_cases hcompleted : w.Completed
  · obtain ⟨objective, hsolve⟩ := hcompleted
    obtain ⟨failed, hfailed, houtcome⟩ := Answers.exists_outcome a.settings a.table call.laps
      hbuilt hsolve hword hinfo
    rw [houtcome] at hreturned
    exact ⟨_, hreturned, .inr ⟨objective, failed, hsolve, hfailed, rfl⟩⟩
  · rw [Answers.outcome_of_failed hcompleted] at hreturned
    exact ⟨_, hreturned, .inl ⟨hcompleted, rfl⟩⟩

/-- **The order in which the status is decided.** If the engine tells its status and its statistics, a
call of a run returns a record. Its status is a solver error if the solve did not complete; otherwise it
is the time limit if the call was late, else a solver error if a vector is missing or the solution was
refused, else the status of the engine's word. So there are no other statuses. -/
theorem status_precedence (a : Adapter σ T W) (hcall : calls[i]? = some call)
    (hbuilt : call.problem.Built) (hanswers : a.answersAt calls i call.problem = w)
    (hword : w.status = .ok word) (hinfo : w.info = .ok info) :
    ∃ r, (a.run calls).2[i]? = some (.ok r) ∧
      (¬w.Completed → r.status = .solverError) ∧
      (w.Completed → a.settings.IsLate (info.spent call.laps) → r.status = .timeLimit) ∧
      (w.Completed → ¬a.settings.IsLate (info.spent call.laps) →
        w.candidate.Incomplete ∨ w.Refused a.settings call.problem (a.table word) →
          r.status = .solverError) ∧
      (w.Completed → ¬a.settings.IsLate (info.spent call.laps) →
        ¬w.candidate.Incomplete → ¬w.Refused a.settings call.problem (a.table word) →
          r.status = a.table word) ∧
      (r.status = a.table word ∨ r.status = .solverError ∨ r.status = .timeLimit) := by
  obtain ⟨r, hreturned, hrecord⟩ := exists_record a hcall hbuilt hanswers hword hinfo
  refine ⟨r, hreturned, ?_⟩
  rcases hrecord with ⟨hfailed, rfl⟩ | ⟨objective, failed, hsolve, hfailed, rfl⟩
  · refine ⟨fun _ => rfl, ?_, ?_, ?_, .inr (.inl rfl)⟩ <;>
      intro hcompleted <;> exact absurd hcompleted hfailed
  · rw [Answers.record_eq]
    refine ⟨fun h => absurd ⟨objective, hsolve⟩ h, fun _ => finalStatus_of_late, ?_, ?_, finalStatus_cases⟩
    · rintro - hlate (hincomplete | hrefused)
      · exact finalStatus_of_failed hlate (.inr hincomplete)
      · exact finalStatus_of_failed hlate (.inl (hfailed.mpr hrefused))
    · intro _ hlate hcomplete haccepted
      refine finalStatus_of_kept hlate ?_
      rintro (h | h)
      · exact haccepted (hfailed.mp h)
      · exact hcomplete h

/-- An adapter with a time limit of one second, whose engine tells one second of solving, and panics when it is asked
for its solution. -/
def tardy (setup : Option Float) : Adapter Unit Float Status :=
  .new "MOCK" (Answers.engine ⟨.ok (.ok 1), .ok .optimal, .ok ⟨setup, some 1, some 7⟩, .error .other⟩) id
    ⟨none, some 1, none, .always⟩ ()

/-- The time limit overrides the missing solution, if the engine tells both times, and if the clock decides since it
tells only one. A call that is within the limit by the clock lacks its solution. -/
theorem tardy_is_late :
    (∃ r, ((tardy (some 1)).run [squareCall, squareCall]).2[1]? = some (.ok r) ∧ r.status = .timeLimit) ∧
    (∃ r, ((tardy none).run [squareCall, slowCall]).2[1]? = some (.ok r) ∧ r.status = .timeLimit) ∧
    ∃ r, ((tardy none).run [slowCall, squareCall]).2[1]? = some (.ok r) ∧ r.status = .solverError := by
  refine ⟨?_, ?_, ?_⟩
  · obtain ⟨r, hreturned, -, hlate, -⟩ := status_precedence (tardy (some 1))
      (show [squareCall, squareCall][1]? = some squareCall from rfl) squareCall_built rfl rfl rfl
    exact ⟨r, hreturned, hlate ⟨1, rfl⟩ ⟨1, rfl, by decide⟩⟩
  · obtain ⟨r, hreturned, -, hlate, -⟩ := status_precedence (tardy none)
      (show [squareCall, slowCall][1]? = some slowCall from rfl) squareCall_built rfl rfl rfl
    exact ⟨r, hreturned, hlate ⟨1, rfl⟩ ⟨1, rfl, by decide +kernel⟩⟩
  · obtain ⟨r, hreturned, -, -, hmissing, -⟩ := status_precedence (tardy none)
      (show [slowCall, squareCall][1]? = some squareCall from rfl) squareCall_built rfl rfl rfl
    refine ⟨r, hreturned, hmissing ⟨1, rfl⟩ ?_ (.inl (.inl rfl))⟩
    rintro ⟨limit, hlimit, hlt⟩
    cases hlimit
    exact absurd hlt (by decide +kernel)

/-- **What a record holds.** If the engine tells its status and its statistics, a call of a run returns a
record. If the solve did not complete, nothing but a solver error is in it. Otherwise it has the objective,
the run time, the number of iterations and the vectors as the engine told them, whatever became of the
status; and no vector is missing unless the status is a solver error or the time limit. -/
theorem record_shape (a : Adapter σ T W) (hcall : calls[i]? = some call)
    (hbuilt : call.problem.Built) (hanswers : a.answersAt calls i call.problem = w)
    (hword : w.status = .ok word) (hinfo : w.info = .ok info) :
    ∃ r, (a.run calls).2[i]? = some (.ok r) ∧
      (¬w.Completed ∧ r = ⟨.solverError, none, none, none, none, none⟩ ∨
        ∃ objective, w.solve = .ok (.ok objective) ∧ r.objective = some objective ∧
          r.runTime = some (info.spent call.laps) ∧ r.iterations = info.iterations ∧
          (∀ c, w.revert = .ok c → r.x = c.x ∧ r.y = c.y) ∧
          (∀ panic, w.revert = .error panic → r.x = none ∧ r.y = none) ∧
          (r.status ≠ .solverError → r.status ≠ .timeLimit → r.x.isSome = true ∧ r.y.isSome = true)) := by
  obtain ⟨r, hreturned, hrecord⟩ := exists_record a hcall hbuilt hanswers hword hinfo
  refine ⟨r, hreturned, ?_⟩
  rcases hrecord with hfailed | ⟨objective, failed, hsolve, -, rfl⟩
  · exact .inl hfailed
  · rw [Answers.record_eq]
    refine .inr ⟨objective, hsolve, rfl, rfl, rfl, ?_, ?_, ?_⟩
    · intro c hc
      unfold Answers.candidate
      rw [hc]
      exact ⟨rfl, rfl⟩
    · intro panic hpanic
      unfold Answers.candidate
      rw [hpanic]
      exact ⟨rfl, rfl⟩
    · intro herror htime
      have hlate : ¬a.settings.IsLate (info.spent call.laps) := fun h => htime (finalStatus_of_late h)
      have hcomplete : ¬w.candidate.Incomplete := fun h => herror (finalStatus_of_failed hlate (.inr h))
      rw [Candidate.Incomplete, not_or] at hcomplete
      exact ⟨Option.isSome_iff_ne_none.mpr hcomplete.1, Option.isSome_iff_ne_none.mpr hcomplete.2⟩

/-- The record of the late call keeps what the engine told, and has no vectors. -/
theorem tardy_record : ∃ r, ((tardy (some 1)).run [squareCall, squareCall]).2[1]? = some (.ok r) ∧
    r.objective = some 1 ∧ r.iterations = some 7 ∧ r.x = none ∧ r.y = none := by
  obtain ⟨r, hreturned, hrecord⟩ := record_shape (tardy (some 1))
    (show [squareCall, squareCall][1]? = some squareCall from rfl) squareCall_built rfl rfl rfl
  rcases hrecord with ⟨hfailed, -⟩ | ⟨objective, hsolve, hobjective, -, hiterations, -, hpanicked, -⟩
  · exact absurd ⟨1, rfl⟩ hfailed
  · cases hsolve
    obtain ⟨hx, hy⟩ := hpanicked .other rfl
    exact ⟨r, hreturned, hobjective, hiterations, hx, hy⟩

end Adapter

end QpReferee

import QpReferee.Proofs.Adapter.Panics
import QpReferee.Proofs.Print.Transcript
import QpReferee.Proofs.Timing.Report

/-!
# What a call writes

What a call writes follows from the engine's answers and its log, as its outcome does: the log first, then
one line about a failure, if there is one, and at last the times of the phases. Nothing else is written,
and nothing at all unless the settings are verbose.

* `Answers.transcript` : what a call writes, as a function of the engine's answers and its log.
* `Adapter.solve_target` : **a call leaves its target as the target receives the transcript.**
-/

namespace QpReferee

variable {σ T W : Type}

/-- What is written of a transcript: nothing unless the settings are verbose. -/
def Settings.shown (s : Settings) (t : Transcript) : Transcript := if s.isVerbose then t else .empty

theorem Settings.shown_empty (s : Settings) : s.shown .empty = .empty := ite_self _

theorem receive_shown (target : Target) (s : Settings) (texts : List String) (t : Transcript) :
    (target.receive (s.shown ⟨texts, []⟩)).receive (s.shown t) =
      target.receive (s.shown (t.preceded texts)) := by
  unfold Settings.shown
  split_ifs
  · exact (target.receive_preceded texts t).symm
  · rfl

def logTexts : Attempt (Option String) → List String
  | .ok (some log) => [log]
  | _ => []

/-- A line and its end, which are written one after the other. -/
def lineTexts (line : String) : List String := [line, "\n"]

/-- The line about an engine that failed. -/
def errorLine (name : String) (error : EngineError) : String :=
  "Error in " ++ name ++ " solution: " ++ error.message

/-- The line about a solution that was refused, if it was. -/
def refusalTexts [BinaryScalar T] (name : String) : Option (Failure T) → List String
  | some failure => lineTexts ("Solution from " ++ name ++ " failed validation: " ++ failure.message)
  | none => []

namespace Answers

variable [BinaryScalar T]

/-- What is written after the log. A call that a panic escapes from writes nothing more. -/
def conclusion (w : Answers T W) (name : String) (s : Settings) (table : W → Status) (p : Problem T)
    (laps : Laps) : Transcript :=
  match w.solve with
  | .error panic => ⟨lineTexts (errorLine name (.panicked panic.message)), []⟩
  | .ok (.error error) => ⟨lineTexts (errorLine name error), []⟩
  | .ok (.ok _) =>
    match w.status, w.info with
    | .ok word, .ok _ =>
      match w.failure s p (table word) with
      | .ok failure => ⟨refusalTexts name failure, laps.report (s.needsCheck (table word))⟩
      | .error _ => .empty
    | _, _ => .empty

def transcript (w : Answers T W) (log : Attempt (Option String)) (name : String) (s : Settings)
    (table : W → Status) (p : Problem T) (laps : Laps) : Transcript :=
  s.shown ((w.conclusion name s table p laps).preceded (logTexts log))

end Answers

namespace Adapter

/-- The log that the engine hands out in a call. -/
def log (a : Adapter σ T W) (p : Problem T) : Attempt (Option String) :=
  (a.engine.takeLog (a.engine.solve a.state p a.settings.isVerbose).1).2

theorem passLog_target (a : Adapter σ T W) :
    a.passLog.target = a.target.receive (a.settings.shown ⟨logTexts (a.engine.takeLog a.state).2, []⟩) := by
  unfold passLog Settings.shown
  by_cases hverbose : a.settings.isVerbose = true
  · rw [if_pos hverbose, if_pos hverbose]
    rcases a.engine.takeLog a.state with ⟨state, panic | log | log⟩
    · rfl
    · rfl
    · rfl
  · rw [if_neg hverbose, if_neg hverbose]
    rfl

theorem report_target (a : Adapter σ T W) (line : String) :
    (a.report line).target = a.target.receive (a.settings.shown ⟨lineTexts line, []⟩) := by
  unfold report Settings.shown
  split_ifs
  · rfl
  · rfl

theorem reportTimes_target (a : Adapter σ T W) (t : Stopwatches) :
    (a.reportTimes t).target = a.target.receive (a.settings.shown ⟨[], t.report⟩) := by
  unfold reportTimes Settings.shown
  split_ifs
  · rfl
  · rfl

variable [BinaryScalar T]

theorem reportFailure_target (a : Adapter σ T W) (failure : Option (Failure T)) :
    (a.reportFailure failure).target =
      a.target.receive (a.settings.shown ⟨refusalTexts a.name failure, []⟩) := by
  cases failure with
  | none => exact (congrArg a.target.receive a.settings.shown_empty).symm
  | some failure => exact a.report_target _

theorem reported_target (a : Adapter σ T W) (failure : Option (Failure T)) (t : Stopwatches) :
    ((a.reportFailure failure).reportTimes t).target =
      a.target.receive (a.settings.shown ⟨refusalTexts a.name failure, t.report⟩) := by
  have hsettings : (a.reportFailure failure).settings = a.settings := by
    obtain ⟨target, hreported⟩ := a.sameButTarget_reportFailure failure
    rw [hreported]
  rw [reportTimes_target, reportFailure_target, hsettings]
  unfold Settings.shown
  split_ifs
  · rfl
  · rfl

theorem complete_target (a : Adapter σ T W) (p : Problem T) (laps : Laps) (objective : T) :
    (a.complete p laps objective).1.target = a.target.receive (a.settings.shown
      (Answers.conclusion ⟨.ok (.ok objective), a.engine.status a.state, a.engine.info a.state,
        a.engine.revert a.state p⟩ a.name a.settings a.table p laps)) := by
  have hnothing : a.target = a.target.receive (a.settings.shown .empty) := by
    rw [Settings.shown_empty, Target.receive_empty]
  unfold complete Answers.conclusion
  dsimp only
  cases a.engine.status a.state with
  | error panic => exact hnothing
  | ok word =>
    cases a.engine.info a.state with
    | error panic => exact hnothing
    | ok info =>
      dsimp only
      change _ = a.target.receive (a.settings.shown
        (match a.checkFailure p (a.candidate p) (a.table word) with
        | .ok failure => ⟨refusalTexts a.name failure, laps.report (a.settings.needsCheck (a.table word))⟩
        | .error _ => .empty))
      cases a.checkFailure p (a.candidate p) (a.table word) with
      | error panic => exact hnothing
      | ok failure =>
        dsimp only
        rw [reported_target, ← Laps.report_watches]
        rfl

/-- **A call leaves its target as the target receives the transcript.** -/
theorem solve_target (a : Adapter σ T W) (p : Problem T) (laps : Laps) :
    (a.solve p laps).1.target = a.target.receive
      ((a.answers p).transcript (a.log p) a.name a.settings a.table p laps) := by
  unfold solve answers log
  rcases a.engine.solve a.state p a.settings.isVerbose with ⟨state, outcome⟩
  obtain ⟨target, hpassed⟩ := sameButTarget_passLog { a with state }
  have htarget := passLog_target { a with state }
  rw [hpassed] at htarget
  subst htarget
  dsimp only
  rw [hpassed]
  unfold Answers.transcript
  rw [← receive_shown]
  rcases outcome with panic | error | objective
  · exact report_target _ _
  · exact report_target _ _
  · exact complete_target _ p laps objective

end Adapter

end QpReferee

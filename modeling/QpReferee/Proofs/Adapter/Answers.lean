import QpReferee.Adapter
import QpReferee.Proofs.Checked

/-!
# A call as a function of the engine's answers

What a call returns depends on the engine only through four answers, and on the adapter only through its
settings and its table: the log, the target and what was written before have no part in it. Every
statement about returned records starts from this one equation.

* `Answers`, `Adapter.answers` : the four answers, and the ones that an engine gives in a call.
* `Answers.outcome` : the record of a call, or the panic that escapes from it.
* `Answers.outcome_eq_ok` : what stands behind a record.
* `Adapter.solve_outcome` : **a call returns the outcome of the engine's answers.**
* `Adapter.solve_frame` : a call changes the state of the engine and the target, and nothing else.
* `Adapter.SameEngine` : adapters that get the same answers.
-/

namespace QpReferee

variable {σ T W : Type}

/-- The answers of an engine that a record is made of. -/
structure Answers (T W : Type) where
  solve : Attempt (Except EngineError T)
  status : Attempt W
  info : Attempt EngineInfo
  revert : Attempt (Candidate T)

namespace Answers

/-- The solution that was found; nothing if the engine panicked. -/
def candidate (w : Answers T W) : Candidate T :=
  match w.revert with
  | .ok c => c
  | .error _ => .empty

variable [BinaryScalar T]

/-- The failure of the check, if it is asked for and fails. -/
def failure (w : Answers T W) (s : Settings) (p : Problem T) (status : Status) :
    Attempt (Option (Failure T)) :=
  if s.needsCheck status then
    match Kkt.check p w.candidate s.tier with
    | .error fault => .error (.fault fault)
    | .ok (.error failure) => .ok (some failure)
    | .ok (.ok _) => .ok none
  else .ok none

/-- The record of a call that completed with a value of the objective. -/
def record (w : Answers T W) (s : Settings) (laps : Laps) (objective : T) (status : Status)
    (info : EngineInfo) (failed : Bool) : Record T :=
  let measured := ((Stopwatches.empty.lap "solve" laps.solve).elapsed "solve").seconds
  let runTime := info.runTime.getD measured
  { status := finalStatus s status failed w.candidate runTime
    objective := some objective
    x := w.candidate.x
    y := w.candidate.y
    runTime := some runTime
    iterations := info.iterations }

/-- The record of a call, or the panic that escapes from it. -/
def outcome (w : Answers T W) (s : Settings) (table : W → Status) (p : Problem T) (laps : Laps) :
    Attempt (Record T) :=
  match w.solve with
  | .ok (.ok objective) => do
    let word ← w.status
    let info ← w.info
    let failure ← w.failure s p (table word)
    return w.record s laps objective (table word) info failure.isSome
  | _ => .ok .failed

variable {w : Answers T W} {s : Settings} {table : W → Status} {p : Problem T} {laps : Laps}

theorem outcome_eq_ok {r : Record T} (h : w.outcome s table p laps = .ok r) :
    r = .failed ∨ ∃ objective word info failure, w.solve = .ok (.ok objective) ∧ w.status = .ok word ∧
      w.info = .ok info ∧ w.failure s p (table word) = .ok failure ∧
      r = w.record s laps objective (table word) info failure.isSome := by
  unfold outcome at h
  split at h
  · rename_i objective hsolve
    obtain ⟨word, hword, h⟩ := Checked.bind_eq_ok.mp h
    obtain ⟨info, hinfo, h⟩ := Checked.bind_eq_ok.mp h
    obtain ⟨failure, hfailure, h⟩ := Checked.bind_eq_ok.mp h
    exact .inr ⟨objective, word, info, failure, hsolve, hword, hinfo, hfailure, (Except.ok.inj h).symm⟩
  · exact .inl (Except.ok.inj h).symm

end Answers

namespace Adapter

def answers (a : Adapter σ T W) (p : Problem T) : Answers T W :=
  let (state, solve) := a.engine.solve a.state p a.settings.isVerbose
  let state := if a.settings.isVerbose then (a.engine.takeLog state).1 else state
  ⟨solve, a.engine.status state, a.engine.info state, a.engine.revert state p⟩

/-- The state that a call leaves the engine in. -/
def advanced (a : Adapter σ T W) (p : Problem T) : σ :=
  let state := (a.engine.solve a.state p a.settings.isVerbose).1
  if a.settings.isVerbose then (a.engine.takeLog state).1 else state

/-- Two adapters whose engines are the same, in the same state, and are asked the same questions. -/
structure SameEngine (a b : Adapter σ T W) : Prop where
  engine : b.engine = a.engine
  state : b.state = a.state
  verbose : b.settings.isVerbose = a.settings.isVerbose

theorem answers_congr {a b : Adapter σ T W} (h : a.SameEngine b) (p : Problem T) :
    b.answers p = a.answers p := by
  unfold answers
  rw [h.engine, h.state, h.verbose]

theorem advanced_congr {a b : Adapter σ T W} (h : a.SameEngine b) (p : Problem T) :
    b.advanced p = a.advanced p := by
  unfold advanced
  rw [h.engine, h.state, h.verbose]

/-! ## What writing leaves alone -/

/-- Two adapters that differ at most in their targets. -/
def SameButTarget (a b : Adapter σ T W) : Prop := ∃ target, b = { a with target }

theorem SameButTarget.refl (a : Adapter σ T W) : a.SameButTarget a := ⟨a.target, rfl⟩

theorem SameButTarget.trans {a b c : Adapter σ T W} (hab : a.SameButTarget b)
    (hbc : b.SameButTarget c) : a.SameButTarget c := by
  obtain ⟨target, rfl⟩ := hab
  obtain ⟨target', rfl⟩ := hbc
  exact ⟨target', rfl⟩

theorem sameButTarget_report (a : Adapter σ T W) (line : String) : a.SameButTarget (a.report line) := by
  unfold report
  split_ifs
  · exact ⟨_, rfl⟩
  · exact .refl a

theorem sameButTarget_reportTimes (a : Adapter σ T W) (t : Stopwatches) :
    a.SameButTarget (a.reportTimes t) := by
  unfold reportTimes
  split_ifs
  · exact ⟨_, rfl⟩
  · exact .refl a

theorem sameButTarget_reportFailure [BinaryScalar T] (a : Adapter σ T W) (failure : Option (Failure T)) :
    a.SameButTarget (a.reportFailure failure) := by
  cases failure with
  | none => exact .refl a
  | some failure => exact a.sameButTarget_report _

theorem settings_reported [BinaryScalar T] (a : Adapter σ T W) (failure : Option (Failure T))
    (t : Stopwatches) : ((a.reportFailure failure).reportTimes t).settings = a.settings := by
  obtain ⟨target, hreported⟩ :=
    (a.sameButTarget_reportFailure failure).trans (sameButTarget_reportTimes _ t)
  rw [hreported]

theorem sameButTarget_passLog (a : Adapter σ T W) :
    { a with state := if a.settings.isVerbose then (a.engine.takeLog a.state).1 else a.state
      : Adapter σ T W }.SameButTarget a.passLog := by
  unfold passLog
  by_cases hverbose : a.settings.isVerbose = true
  · rw [if_pos hverbose, if_pos hverbose]
    rcases a.engine.takeLog a.state with ⟨state, panic | log | log⟩
    · exact .refl _
    · exact .refl _
    · exact ⟨_, rfl⟩
  · rw [if_neg hverbose, if_neg hverbose]
    exact .refl a

/-! ## One call -/

variable [BinaryScalar T]

theorem sameButTarget_complete (a : Adapter σ T W) (p : Problem T) (laps : Laps) (objective : T) :
    a.SameButTarget (a.complete p laps objective).1 := by
  unfold complete
  dsimp only
  cases a.engine.status a.state with
  | error panic => exact .refl a
  | ok word =>
    cases a.engine.info a.state with
    | error panic => exact .refl a
    | ok info =>
      dsimp only
      cases a.checkFailure p (a.candidate p) (a.table word) with
      | error panic => exact .refl a
      | ok failure => exact (a.sameButTarget_reportFailure failure).trans (sameButTarget_reportTimes _ _)

theorem complete_outcome (a : Adapter σ T W) (p : Problem T) (laps : Laps) (objective : T) :
    (a.complete p laps objective).2 =
      Answers.outcome ⟨.ok (.ok objective), a.engine.status a.state, a.engine.info a.state,
        a.engine.revert a.state p⟩ a.settings a.table p laps := by
  unfold complete Answers.outcome
  dsimp only
  cases a.engine.status a.state with
  | error panic => rfl
  | ok word =>
    cases a.engine.info a.state with
    | error panic => rfl
    | ok info =>
      dsimp only [Checked.ok_bind]
      change _ = a.checkFailure p (a.candidate p) (a.table word) >>= _
      cases a.checkFailure p (a.candidate p) (a.table word) with
      | error panic => rfl
      | ok failure =>
        dsimp only
        rw [settings_reported]
        rfl

/-- **A call returns the outcome of the engine's answers.** -/
theorem solve_outcome (a : Adapter σ T W) (p : Problem T) (laps : Laps) :
    (a.solve p laps).2 = (a.answers p).outcome a.settings a.table p laps := by
  unfold solve answers
  rcases a.engine.solve a.state p a.settings.isVerbose with ⟨state, panic | error | objective⟩
  · rfl
  · rfl
  · obtain ⟨target, hpassed⟩ := sameButTarget_passLog { a with state }
    dsimp only
    rw [hpassed, complete_outcome]

theorem solve_advanced (a : Adapter σ T W) (p : Problem T) (laps : Laps) :
    ∃ target, (a.solve p laps).1 = { a with state := a.advanced p, target } := by
  unfold solve advanced
  rcases a.engine.solve a.state p a.settings.isVerbose with ⟨state, outcome⟩
  obtain ⟨target, hpassed⟩ := sameButTarget_passLog { a with state }
  dsimp only
  rw [hpassed]
  rcases outcome with panic | error | objective
  · obtain ⟨target', hreported⟩ := sameButTarget_report _ _
    exact ⟨target', hreported⟩
  · obtain ⟨target', hreported⟩ := sameButTarget_report _ _
    exact ⟨target', hreported⟩
  · obtain ⟨target', hcompleted⟩ := sameButTarget_complete _ p laps objective
    exact ⟨target', hcompleted⟩

/-- A call changes the state of the engine and the target, and nothing else. -/
theorem solve_frame (a : Adapter σ T W) (p : Problem T) (laps : Laps) :
    ∃ state target, (a.solve p laps).1 = { a with state, target } :=
  ⟨a.advanced p, a.solve_advanced p laps⟩

end Adapter

end QpReferee

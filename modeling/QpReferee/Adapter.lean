import QpReferee.Engine.Basic
import QpReferee.Kkt.Check
import QpReferee.Print.Target
import QpReferee.Record
import QpReferee.Settings.Basic
import QpReferee.Status.Native
import QpReferee.Timing.Stopwatches

/-!
# Adapters

An adapter puts an engine behind one interface. A call solves a problem, reads the status of the
engine's word from a table, checks the solution as the settings ask, and packages a record. What is
written on the way goes to the adapter's print target, and only if the settings are verbose; a write
that fails changes nothing else.

* `finalStatus` : how the status follows from the engine's word, the check and the run time.
* `Adapter.solve` : one call. A panic of the engine's solve, log or solution is caught.
-/

namespace QpReferee

/-- The instants at which a phase began and ended. -/
structure Span where
  began : Instant
  ended : Instant
  deriving Repr

/-- The readings of the clock during a call, by phase. -/
structure Laps where
  solve : Span
  revert : Span
  validate : Span
  deriving Repr

/-- An engine behind the common interface: a table gives its words their statuses. -/
structure Adapter (σ T W : Type) where
  name : String
  engine : Engine σ T W
  table : W → Status
  settings : Settings
  state : σ
  target : Target

def Stopwatches.lap (t : Stopwatches) (key : String) (span : Span) : Stopwatches :=
  (t.start key span.began).stop key span.ended

/-- Is the solution checked, given the status of the engine's word? -/
def Settings.needsCheck (s : Settings) (status : Status) : Bool :=
  match s.policy with
  | .always => true
  | .solutionPresent => status.isOptimal

/-- The status of a completed call. A failed check and a missing solution are errors; an exceeded time
limit overrides everything else. -/
def finalStatus {T : Type} (s : Settings) (status : Status) (checkFailed : Bool) (c : Candidate T)
    (runTime : Float) : Status :=
  if s.exceeded runTime then .timeLimit
  else if checkFailed || c.x.isNone || c.y.isNone then .solverError
  else status

namespace Adapter

variable {σ T W : Type}

/-- A new adapter, which writes to the console. -/
def new (name : String) (engine : Engine σ T W) (table : W → Status) (settings : Settings)
    (state : σ) : Adapter σ T W :=
  ⟨name, engine, table, settings, state, .console .unlimited⟩

def emit (a : Adapter σ T W) (text : String) : Adapter σ T W :=
  { a with target := (a.target.write text).1 }

/-- Write a line, if the settings are verbose. The end of the line is written even if the line
itself could not be. -/
def report (a : Adapter σ T W) (line : String) : Adapter σ T W :=
  if a.settings.isVerbose then (a.emit line).emit "\n" else a

/-- Write the engine's log, if the settings are verbose and there is one. -/
def passLog (a : Adapter σ T W) : Adapter σ T W :=
  if a.settings.isVerbose then
    match a.engine.takeLog a.state with
    | (state, .ok (some log)) => { a with state }.emit log
    | (state, _) => { a with state }
  else a

/-- The record of a call whose engine failed. -/
def fail (a : Adapter σ T W) (error : EngineError) : Adapter σ T W × Attempt (Record T) :=
  (a.report ("Error in " ++ a.name ++ " solution: " ++ error.message), .ok .failed)

/-- Write the times of the phases, if the settings are verbose. -/
def reportTimes (a : Adapter σ T W) (t : Stopwatches) : Adapter σ T W :=
  if a.settings.isVerbose then { a with target := a.target.writeLines t.report } else a

/-- The solution that the engine found; nothing if it panicked. -/
def candidate (a : Adapter σ T W) (p : Problem T) : Candidate T :=
  match a.engine.revert a.state p with
  | .ok c => c
  | .error _ => .empty

variable [BinaryScalar T]

/-- The failure of the check, if it is asked for and fails. -/
def checkFailure (a : Adapter σ T W) (p : Problem T) (c : Candidate T) (status : Status) :
    Attempt (Option (Failure T)) :=
  if a.settings.needsCheck status then
    match Kkt.check p c a.settings.tier with
    | .error fault => .error (.fault fault)
    | .ok (.error failure) => .ok (some failure)
    | .ok (.ok _) => .ok none
  else .ok none

/-- Write the failure of the check, if there is one. -/
def reportFailure (a : Adapter σ T W) : Option (Failure T) → Adapter σ T W
  | some failure =>
    a.report ("Solution from " ++ a.name ++ " failed validation: " ++ failure.message)
  | none => a

/-- The record of a call whose engine completed with a value of the objective. -/
def complete (a : Adapter σ T W) (p : Problem T) (laps : Laps) (objective : T) :
    Adapter σ T W × Attempt (Record T) :=
  let watches := Stopwatches.empty.lap "solve" laps.solve
  match a.engine.status a.state with
  | .error panic => (a, .error panic)
  | .ok word =>
    match a.engine.info a.state with
    | .error panic => (a, .error panic)
    | .ok info =>
      let status := a.table word
      let runTime := info.runTime.getD (watches.elapsed "solve").seconds
      let watches := watches.lap "revert" laps.revert
      let c := a.candidate p
      match a.checkFailure p c status with
      | .error panic => (a, .error panic)
      | .ok failure =>
        let watches :=
          if a.settings.needsCheck status then watches.lap "validate" laps.validate else watches
        let a := (a.reportFailure failure).reportTimes watches
        (a, .ok {
          status := finalStatus a.settings status failure.isSome c runTime
          objective := some objective
          x := c.x
          y := c.y
          runTime := some runTime
          iterations := info.iterations })

/-- Solve a problem, check the solution and package the outcome. -/
def solve (a : Adapter σ T W) (p : Problem T) (laps : Laps) :
    Adapter σ T W × Attempt (Record T) :=
  let (state, outcome) := a.engine.solve a.state p a.settings.isVerbose
  let a := { a with state }.passLog
  match outcome with
  | .ok (.ok objective) => a.complete p laps objective
  | .ok (.error error) => a.fail error
  | .error panic => a.fail (.panicked panic.message)

/-! ## Adapters by name -/

/-- The adapter for ECOS behind a modelling layer. -/
def modelled (engine : Engine σ T String) (settings : Settings) (state : σ) : Adapter σ T String :=
  .new "ECOS" engine Modelling.status settings state

end Adapter

end QpReferee

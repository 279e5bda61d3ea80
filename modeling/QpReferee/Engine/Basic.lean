import QpReferee.Kkt.Failure
import QpReferee.Problem

/-!
# Engines

An engine is a solver behind a fixed set of questions: solve a problem, and then report its status,
its statistics, its log and its solution. Any of the questions may panic instead of being answered.

* `Attempt` : an answer, or a panic.
* `Engine` : the questions, over the state in which an engine keeps what it knows.
-/

namespace QpReferee

/-- Why an answer is missing. A thrown value that panics again when it is dropped is not among these: it
would panic in whoever caught it. -/
inductive Panic where
  /-- The engine gave up with a text. -/
  | text (message : String)
  /-- The engine gave up with something that is no text. -/
  | other
  /-- A precondition was broken. -/
  | fault (fault : Fault)
  deriving DecidableEq, Repr

def Panic.message : Panic → String
  | .text message => message
  | .other | .fault _ => "unknown panic"

abbrev Attempt (α : Type) := Except Panic α

/-- An error that an engine reports. -/
inductive EngineError where
  /-- The data were refused. -/
  | badProblem (text : String)
  /-- The solve went wrong. -/
  | solverFailure (text : String)
  /-- The problem is of a kind that the engine does not solve. -/
  | unsupported (text : String)
  | panicked (text : String)
  deriving DecidableEq, Repr

def EngineError.message : EngineError → String
  | .badProblem text => "Bad problem data: " ++ text
  | .solverFailure text => "Solver failure: " ++ text
  | .unsupported text => "Unsupported problem: " ++ text
  | .panicked text => "Solver panicked: " ++ text

/-- What an engine tells of a solve; times are in seconds. -/
structure EngineInfo where
  setupTime : Option Float
  solveTime : Option Float
  iterations : Option Nat
  deriving BEq, Repr

namespace EngineInfo

def unknown : EngineInfo := ⟨none, none, none⟩

/-- The time of setup and solve together, if both are told. -/
def runTime (info : EngineInfo) : Option Float := do
  return (← info.setupTime) + (← info.solveTime)

end EngineInfo

/-- The questions to an engine with states `σ`, scalars `T` and its own words `W` for a status. -/
structure Engine (σ T W : Type) where
  /-- Solve a problem and give the value of its objective. -/
  solve : σ → Problem T → (verbose : Bool) → σ × Attempt (Except EngineError T)
  /-- The status of the last solve. -/
  status : σ → Attempt W
  info : σ → Attempt EngineInfo
  /-- Hand out the log of the last solve. -/
  takeLog : σ → σ × Attempt (Option String)
  /-- The solution that the last solve found. -/
  revert : σ → Problem T → Attempt (Candidate T)

end QpReferee

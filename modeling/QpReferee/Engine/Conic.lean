import QpReferee.Adapter
import QpReferee.Solver.Interior

/-!
# The conic engine

An engine over a conic solver. Each solve begins by forgetting the last one; what the solver answers
is kept only once it has run to its end. Equality rows become zero cones and inequality rows
nonnegative cones, so the solver's multipliers are those of the problem.

* `Conic.Backend` : the solver behind the engine.
* `Conic.Backend.work` : the stages of a solve, and what the engine knows after each.
* `Conic.engine` : the engine over a backend.
* `Conic.interiorBackend` : the backend that uses the interior point method, which stands in for a solver.
-/

namespace QpReferee.Conic

/-- The rows of one cone. -/
inductive Cone where
  | zero (size : Nat)
  | nonnegative (size : Nat)
  deriving DecidableEq, Repr

/-- The cones of some blocks; an empty block has none. -/
def cones (blocks : List Block) : List Cone :=
  (blocks.filter fun block => 0 < block.size).map fun block =>
    match block.kind with
    | .equality => .zero block.size
    | .inequality => .nonnegative block.size

/-- What a solver has found. -/
structure Solution (T : Type) where
  word : Word
  objective : T
  x : List T
  z : List T
  iterations : Nat

/-- A solver, by its answers at each stage of a solve. It may refuse its settings, the problem and the log,
and it may panic at any stage. -/
structure Backend (T : Type) where
  /-- Accept the settings, of which only the verbosity is given. -/
  configure : (verbose : Bool) → Attempt (Except String Unit)
  /-- Take a problem. -/
  prepare : Problem T → List Cone → (verbose : Bool) → Attempt (Except String Unit)
  /-- Solve the problem that was taken. -/
  run : Problem T → List Cone → (verbose : Bool) → Attempt (Solution T)
  /-- Hand out what was written on the way to a solution. -/
  log : Problem T → Solution T → Attempt (Except String String)
  /-- When the problem was taken. -/
  setupLap : Span
  /-- When it was solved. -/
  solveLap : Span

/-- What the engine knows of its last solve. -/
structure State (T : Type) where
  solution : Option (Solution T)
  info : EngineInfo
  log : Option String

namespace State

variable {T : Type}

def fresh : State T := ⟨none, .unknown, none⟩

def word (s : State T) : Word :=
  match s.solution with
  | some solution => solution.word
  | none => .unsolved

def takeLog (s : State T) : State T × Option String := ({ s with log := none }, s.log)

def candidate (s : State T) : Candidate T :=
  match s.solution with
  | some solution => ⟨some solution.x, some solution.z⟩
  | none => .empty

end State

/-! ## Solving -/

/-- Why a solve ends before it has an objective. -/
inductive Stop where
  | refused (error : EngineError)
  | panicked (panic : Panic)

/-- The work of a solve. It changes what the engine knows, and what it has changed stays changed if it ends
early. -/
abbrev Work (T : Type) := ExceptT Stop (StateM (State T))

variable {T α : Type}

def Work.answer : Attempt α → Work T α
  | .ok a => pure a
  | .error panic => throw (.panicked panic)

/-- Wait for an answer that may be a refusal. -/
def Work.accept (error : String → EngineError) : Attempt (Except String α) → Work T α
  | .ok (.ok a) => pure a
  | .ok (.error text) => throw (.refused (error text))
  | .error panic => throw (.panicked panic)

namespace Backend

def info (backend : Backend T) (found : Solution T) : EngineInfo :=
  let watches := (Stopwatches.empty.lap "setup" backend.setupLap).lap "solve" backend.solveLap
  ⟨some (watches.elapsed "setup").seconds, some (watches.elapsed "solve").seconds,
    some found.iterations⟩

/-- Keep what was found: the log if it was asked for, then the times, and last the solution. -/
def keep (backend : Backend T) (p : Problem T) (verbose : Bool) (found : Solution T) : Work T T := do
  if verbose then
    let log ← Work.answer (backend.log p found)
    modify fun s => { s with log := log.toOption }
  modify fun s => { s with info := backend.info found }
  modify fun s => { s with solution := some found }
  return found.objective

/-- Solve a problem, from forgetting the last solve to keeping this one. -/
def work (backend : Backend T) (p : Problem T) (verbose : Bool) : Work T T := do
  set (State.fresh : State T)
  Work.accept .solverFailure (backend.configure verbose)
  Work.accept .badProblem (backend.prepare p (cones p.blocks) verbose)
  let found ← Work.answer (backend.run p (cones p.blocks) verbose)
  backend.keep p verbose found

end Backend

def solve (backend : Backend T) (s : State T) (p : Problem T) (verbose : Bool) :
    State T × Attempt (Except EngineError T) :=
  match (backend.work p verbose).run.run s with
  | (.ok objective, s) => (s, .ok (.ok objective))
  | (.error (.refused error), s) => (s, .ok (.error error))
  | (.error (.panicked panic), s) => (s, .error panic)

def engine (backend : Backend T) : Engine (State T) T Word where
  solve := solve backend
  status s := .ok s.word
  info s := .ok s.info
  takeLog s := (s.takeLog.1, .ok s.takeLog.2)
  revert s _ := .ok s.candidate

/-! ## The interior point backend -/

def logText (p : Problem T) (word : Word) (steps : Nat) : String :=
  "variables = " ++ toString p.unknowns ++ "\nconstraints = " ++ toString p.rows ++
    "\nsteps = " ++ toString steps ++ "\nTerminated with status = " ++ word.name ++ "\n"

variable [BinaryScalar T]

/-- The interior point method. A problem without variables and rows leaves it nothing to work on, which
is a panic. The times of the two phases are given. -/
def interiorBackend (setup run : Duration) : Backend T where
  configure _ := .ok (.ok ())
  prepare p _ _ := if p.unknowns + p.rows = 0 then .error (.fault .range) else .ok (.ok ())
  run p _ _ :=
    let answer := Interior.solve p
    .ok {
      word := answer.word
      objective := answer.objective
      x := answer.x
      z := answer.y
      iterations := answer.steps }
  log p found := .ok (.ok (logText p found.word found.iterations))
  setupLap := ⟨0, setup.nanoseconds⟩
  solveLap := ⟨0, run.nanoseconds⟩

/-- An adapter for the engine over a backend. -/
def adapter (backend : Backend T) (settings : Settings) : Adapter (State T) T Word :=
  .new "CLARABEL" (engine backend) Word.status settings .fresh

end QpReferee.Conic

import QpReferee.Status.Basic

/-!
# Native vocabularies

Each engine reports in its own words, and one fixed table gives each word a status. What a table
does not list is a solver error.

* `Modelling.status` : the words of a modelling layer in front of a solver. A plain `unbounded` is
  not listed.
* `Conic.Word.status` : the words of a conic solver.
-/

namespace QpReferee

namespace Modelling

/-- The words that have a status of their own. -/
def table : List (String × Status) :=
  [("optimal", .optimal), ("optimal_inaccurate", .optimalInaccurate),
    ("infeasible", .primalInfeasible), ("infeasible_inaccurate", .primalInfeasibleInaccurate),
    ("unbounded_inaccurate", .dualInfeasibleInaccurate)]

def status (word : String) : Status := (table.lookup word).getD .solverError

end Modelling

namespace Conic

/-- The words of a conic solver. -/
inductive Word where
  | unsolved
  | solved
  | primalInfeasible
  | dualInfeasible
  | almostSolved
  | almostPrimalInfeasible
  | almostDualInfeasible
  | maxIterations
  | maxTime
  | numericalError
  | insufficientProgress
  | callbackTerminated
  deriving DecidableEq, Repr

namespace Word

def all : List Word :=
  [unsolved, solved, primalInfeasible, dualInfeasible, almostSolved, almostPrimalInfeasible,
    almostDualInfeasible, maxIterations, maxTime, numericalError, insufficientProgress,
    callbackTerminated]

def name : Word → String
  | unsolved => "Unsolved"
  | solved => "Solved"
  | primalInfeasible => "PrimalInfeasible"
  | dualInfeasible => "DualInfeasible"
  | almostSolved => "AlmostSolved"
  | almostPrimalInfeasible => "AlmostPrimalInfeasible"
  | almostDualInfeasible => "AlmostDualInfeasible"
  | maxIterations => "MaxIterations"
  | maxTime => "MaxTime"
  | numericalError => "NumericalError"
  | insufficientProgress => "InsufficientProgress"
  | callbackTerminated => "CallbackTerminated"

def ofName? (text : String) : Option Word := all.find? fun word => word.name == text

def status : Word → Status
  | solved => .optimal
  | almostSolved => .optimalInaccurate
  | primalInfeasible => .primalInfeasible
  | almostPrimalInfeasible => .primalInfeasibleInaccurate
  | dualInfeasible => .dualInfeasible
  | almostDualInfeasible => .dualInfeasibleInaccurate
  | maxIterations => .maxIterReached
  | maxTime => .timeLimit
  | unsolved | numericalError | insufficientProgress | callbackTerminated => .solverError

end Word

end Conic

end QpReferee

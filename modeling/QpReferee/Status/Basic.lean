/-!
# Statuses

The outcomes that a record can carry, whatever vocabulary the engine has.

* `Status.ofName?` : reads exactly the names that `Status.name` writes.
-/

namespace QpReferee

/-- The outcome of a solve. -/
inductive Status where
  | optimal
  | optimalInaccurate
  | primalInfeasible
  | primalInfeasibleInaccurate
  | dualInfeasible
  | dualInfeasibleInaccurate
  | maxIterReached
  | timeLimit
  | solverError
  deriving DecidableEq, Repr

namespace Status

/-- Every status, from a verified solution down to an error. -/
def all : List Status :=
  [optimal, optimalInaccurate, primalInfeasible, primalInfeasibleInaccurate, dualInfeasible,
    dualInfeasibleInaccurate, maxIterReached, timeLimit, solverError]

/-- The name of a status in text and in records. -/
def name : Status → String
  | optimal => "optimal"
  | optimalInaccurate => "optimal_inaccurate"
  | primalInfeasible => "primal_infeasible"
  | primalInfeasibleInaccurate => "primal_infeasible_inaccurate"
  | dualInfeasible => "dual_infeasible"
  | dualInfeasibleInaccurate => "dual_infeasible_inaccurate"
  | maxIterReached => "max_iter_reached"
  | timeLimit => "time_limit"
  | solverError => "solver_error"

/-- The title of a status: its name in camel case. -/
def title : Status → String
  | optimal => "Optimal"
  | optimalInaccurate => "OptimalInaccurate"
  | primalInfeasible => "PrimalInfeasible"
  | primalInfeasibleInaccurate => "PrimalInfeasibleInaccurate"
  | dualInfeasible => "DualInfeasible"
  | dualInfeasibleInaccurate => "DualInfeasibleInaccurate"
  | maxIterReached => "MaxIterReached"
  | timeLimit => "TimeLimit"
  | solverError => "SolverError"

def ofName? (text : String) : Option Status := all.find? fun status => status.name == text

/-- What is said of a text that names no status. -/
def unknownNameMessage (text : String) : String := "unknown status name \"" ++ text ++ "\""

/-- Does a record of this status carry a verified solution? -/
def hasSolution (status : Status) : Bool := status == optimal

def isOptimal : Status → Bool
  | optimal | optimalInaccurate => true
  | _ => false

/-- Does the status claim that there is no solution? -/
def isInfeasible : Status → Bool
  | primalInfeasible | primalInfeasibleInaccurate | dualInfeasible | dualInfeasibleInaccurate =>
    true
  | _ => false

/-- Is the claim made at reduced accuracy only? -/
def isInaccurate : Status → Bool
  | optimalInaccurate | primalInfeasibleInaccurate | dualInfeasibleInaccurate => true
  | _ => false

def isErrored (status : Status) : Bool := status == solverError

end Status

end QpReferee

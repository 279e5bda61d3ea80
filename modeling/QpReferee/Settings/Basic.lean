import QpReferee.Kkt.Tolerance

/-!
# Settings

What every adapter can be told: whether to write diagnostics, how long a solve may take, how closely
and when its solution is checked. A setting left open is told apart from one that is switched off.

* `Settings.validate` : the one rule, that a time limit is a number above zero.
-/

namespace QpReferee

/-- When the candidate of a completed solve is checked. -/
inductive Policy where
  /-- After every completed solve. -/
  | always
  /-- Only if the status claims a solution. -/
  | solutionPresent
  deriving DecidableEq, Repr

namespace Policy

def all : List Policy := [.always, .solutionPresent]

def name : Policy → String
  | .always => "always"
  | .solutionPresent => "solution_present"

end Policy

/-- A setting with an illegal value. -/
inductive SettingsError where
  | badFieldValue (field : String)
  deriving DecidableEq, Repr

def SettingsError.message : SettingsError → String
  | .badFieldValue field => "Bad value for field \"" ++ field ++ "\""

/-- The settings of an adapter. -/
structure Settings where
  verbose : Option Bool
  /-- The longest run time, in seconds. -/
  timeLimit : Option Float
  highAccuracy : Option Bool
  policy : Policy
  deriving BEq, Repr

namespace Settings

def default : Settings := ⟨none, none, none, .always⟩

/-- Is a number of seconds a time limit? -/
def legalTimeLimit (seconds : Float) : Bool := !seconds.isNaN && !decide (seconds ≤ 0.0)

/-- Check a time limit, if there is one. -/
def validateTimeLimit : Option Float → Except SettingsError Unit
  | none => .ok ()
  | some seconds =>
    if legalTimeLimit seconds then .ok () else .error (.badFieldValue "time_limit")

/-- Check that every number has a legal value. -/
def validate (s : Settings) : Except SettingsError Unit := validateTimeLimit s.timeLimit

def isVerbose (s : Settings) : Bool := s.verbose.getD false

/-- The tier at which candidates are checked. -/
def tier (s : Settings) : Tier := if s.highAccuracy.getD false then .high else .standard

/-- Is a time limit set that a run time (in seconds) exceeds? -/
def exceeded (s : Settings) (runTime : Float) : Bool :=
  match s.timeLimit with
  | some limit => decide (limit < runTime)
  | none => false

end Settings

end QpReferee

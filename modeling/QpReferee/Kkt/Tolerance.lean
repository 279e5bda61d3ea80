import QpReferee.Scalar

/-!
# Tolerance tiers

A claimed solution is checked at one of two tiers. Each gives an absolute and a relative tolerance,
which are equal.
-/

namespace QpReferee

/-- How closely a solution has to satisfy the optimality conditions. -/
inductive Tier where
  /-- One part in a thousand. -/
  | standard
  /-- One part in a hundred thousand. -/
  | high
  deriving DecidableEq, Repr

namespace Tier

/-- The tier used where none is asked for. -/
def default : Tier := .standard

def all : List Tier := [.standard, .high]

def name : Tier → String
  | .standard => "standard"
  | .high => "high"

variable {T : Type} [Scalar T]

def absolute : Tier → T
  | .standard => Scalar.ofRatio 1 1000
  | .high => Scalar.ofRatio 1 100000

def relative (tier : Tier) : T := tier.absolute

end Tier

end QpReferee

import QpReferee.Decimal.Style
import QpReferee.Scalar

/-!
# Why a candidate is refused

A candidate is a claimed solution, of which either vector may be missing. A refusal names the first
condition that failed, with the measured violation and the tolerance it exceeds.

* `Failure.message` : its wording; numbers are written by `residualStyle`.
-/

namespace QpReferee

/-- A claimed solution: the variables and one multiplier per row. -/
structure Candidate (T : Type) where
  x : Option (List T)
  y : Option (List T)

def Candidate.empty {T : Type} : Candidate T := ⟨none, none⟩

/-- The two vectors of a candidate. -/
inductive Part where
  | x | y
  deriving DecidableEq, Repr

def Part.name : Part → String
  | .x => "x"
  | .y => "y"

/-- The first condition that a candidate fails. -/
inductive Failure (T : Type) where
  | missingSolution
  | badLength (part : Part) (expected found : Nat)
  | nonFinite (part : Part)
  | primalResidual (residual tolerance : T)
  | dualSign (residual tolerance : T)
  | stationarity (residual tolerance : T)
  | complementarity (residual tolerance : T)
  | dualityGap (absolute relative tolerance : T)
  deriving Repr

/-- Residuals are written with an exponent, halves rounded upward. -/
def residualStyle : NumberStyle where
  tie := .upward
  positional _ _ := false
  plus := false
  infinity negative := if negative then "-inf" else "inf"
  nan := "NaN"

/-- The text of a residual, in double precision. -/
def residualText {T : Type} [BinaryScalar T] (v : T) : String :=
  String.ofList (residualStyle.write .binary64 (BinaryScalar.toBits (BinaryScalar.toFloat v)))

def Failure.message {T : Type} [BinaryScalar T] : Failure T → String
  | .missingSolution => "Candidate solution is missing x or y"
  | .badLength part expected found =>
    "Candidate " ++ part.name ++ " has length " ++ toString found ++ ", expected " ++
      toString expected
  | .nonFinite part => "Candidate " ++ part.name ++ " has non-finite entries"
  | .primalResidual residual tolerance => exceeds ("Primal residual " ++ residualText residual) tolerance
  | .dualSign residual tolerance => exceeds ("Dual sign violation " ++ residualText residual) tolerance
  | .stationarity residual tolerance =>
    exceeds ("Stationarity residual " ++ residualText residual) tolerance
  | .complementarity residual tolerance =>
    exceeds ("Complementary slackness residual " ++ residualText residual) tolerance
  | .dualityGap absolute relative tolerance =>
    exceeds ("Duality gap " ++ residualText absolute ++ " (relative " ++ residualText relative ++ ")")
      tolerance
where
  /-- A measured quantity and the tolerance it exceeds. -/
  exceeds (measured : String) (tolerance : T) : String :=
    measured ++ " exceeds tolerance " ++ residualText tolerance

end QpReferee

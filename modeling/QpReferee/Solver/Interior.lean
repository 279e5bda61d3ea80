import QpReferee.Solver.Interior.Step

/-!
# An interior point method

Steps are taken until the point shows an optimum or a certificate of infeasibility, to tolerances that
are relative to the numbers of the problem.

The method stands in for the solver that a conic engine is given, which is no part of this library. It
finds solutions of the same quality and the same words for them, not the same digits: what is said of the
engine is said for every solver.

* `Interior.search` : the point at which the search ends, and why it does.
* `Interior.solve` : what is found for a problem.
-/

namespace QpReferee.Interior

open Conic (Word)

variable (e : Setting)

/-! ## The search -/

def stepLimit : Nat := 200

/-- How a search ended. -/
structure Ending where
  word : Word
  reading : Reading
  measures : Measures
  steps : Nat

/-- The ending where no more can be had: the point may show something all the same, if only to the
reduced tolerances. -/
def giveUp (word : Word) (r : Reading) (m : Measures) (steps : Nat) : Ending :=
  let shown := ((m.verdict .stuck).map Verdict.word).or ((m.verdict .reduced).map Verdict.almostWord)
  ⟨shown.getD word, r, m, steps⟩

/-- Go on from a point until it shows something or no step can be taken. -/
def search (r : Reading) (steps : Nat) : (budget : Nat) → Ending
  | 0 => giveUp .maxIterations r (r.measure e) steps
  | budget + 1 =>
    let m := r.measure e
    match m.verdict .full with
    | some verdict => ⟨verdict.word, r, m, steps⟩
    | none =>
      let (d, part) := r.next e (steps = 0)
      if !d.w.norm.isFinite || !d.tau.isFinite then giveUp .numericalError r m steps
      else if part ≤ 0 then giveUp .insufficientProgress r m steps
      else search ((r.point.move d part).read e) (steps + 1) budget

/-! ## Problems -/

/-- What has been found for a problem. -/
structure Answer (T : Type) where
  word : Word
  objective : T
  x : List T
  y : List T
  steps : Nat

/-- Does a word stand for a certificate instead of a point? -/
def isCertificate : Word → Bool
  | .primalInfeasible | .dualInfeasible | .almostPrimalInfeasible | .almostDualInfeasible => true
  | _ => false

/-- The multipliers of all rows, from those of the rows that have been kept. -/
def spread (rows : Nat) (kept : List Nat) (y : List Float) : Array Float :=
  (kept.zip y).foldl (fun all (row, a) => all.set! row a) (Array.replicate rows 0)

/-- Solve a problem. A certificate is scaled so that it gains one in the scaled conditions, and has no
objective. -/
def solve {T : Type} [BinaryScalar T] (p : Problem T) : Answer T :=
  let kept := Conditions.keptRows p
  let e := Setting.make (.ofProblem p kept)
  let ending := search e ((firstPoint e).read e) 0 stepLimit
  let q := ending.reading.point
  let unit := if isCertificate ending.word then q.kappa else q.tau
  let value (i : Nat) : Float := q.w.get! i / unit * e.scaled.scales.get! i
  let y := (List.range (e.size - e.unknowns)).map fun i =>
    value (e.unknowns + i) / e.scaled.objectiveScale
  { word := ending.word
    objective :=
      BinaryScalar.ofFloat (if isCertificate ending.word then 0 / 0 else ending.measures.costPrimal)
    x := (List.range e.unknowns).map fun i => BinaryScalar.ofFloat (value i)
    y := (spread p.rows kept y).toList.map BinaryScalar.ofFloat
    steps := ending.steps }

end QpReferee.Interior

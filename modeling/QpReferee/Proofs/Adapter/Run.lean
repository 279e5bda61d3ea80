import QpReferee.Proofs.Adapter.Answers
import QpReferee.Proofs.Problem.Built

/-!
# Runs of calls

An adapter is called any number of times, on any problems, with an engine that may answer anything.
Each call is the one call that `Answers.outcome` describes, made in the state that the calls before it
left.

* `Call`, `Adapter.run` : calls one after the other.
* `Adapter.run_frame` : a run keeps everything but the state of the engine and the target.
* `Adapter.outcome_of_run` : **the outcomes of a run are those of the engine's answers in each call.**
* `Adapter.answersAt_congr` : adapters with the same engine get the same answers.
* `Answers.engine`, `squareCall`, `slowCall` : an engine and calls for small runs that can be computed.
-/

namespace QpReferee

variable {σ T W : Type}

/-- A problem to solve, and the readings of the clock meanwhile. -/
structure Call (T : Type) where
  problem : Problem T
  laps : Laps

namespace Adapter

variable [BinaryScalar T]

/-- The adapter after some calls, and what the calls returned. -/
def run (a : Adapter σ T W) : List (Call T) → Adapter σ T W × List (Attempt (Record T))
  | [] => (a, [])
  | call :: calls =>
    let (a, outcome) := a.solve call.problem call.laps
    let (a, outcomes) := a.run calls
    (a, outcome :: outcomes)

/-- The answers of the engine in the call at an index of a run. -/
def answersAt (a : Adapter σ T W) (calls : List (Call T)) (i : Nat) (p : Problem T) : Answers T W :=
  (a.run (calls.take i)).1.answers p

theorem run_frame (a : Adapter σ T W) (calls : List (Call T)) :
    ∃ state target, (a.run calls).1 = { a with state, target } := by
  induction calls generalizing a with
  | nil => exact ⟨a.state, a.target, rfl⟩
  | cons call calls ih =>
    obtain ⟨state, target, hsolve⟩ := a.solve_frame call.problem call.laps
    obtain ⟨state', target', hrun⟩ := ih (a.solve call.problem call.laps).1
    refine ⟨state', target', ?_⟩
    change ((a.solve call.problem call.laps).1.run calls).1 = _
    rw [hrun, hsolve]

/-- Each call of a run is made in the state that the calls before it left. -/
theorem run_getElem? (a : Adapter σ T W) (calls : List (Call T)) (i : Nat) :
    (a.run calls).2[i]? = calls[i]?.map fun call =>
      ((a.run (calls.take i)).1.solve call.problem call.laps).2 := by
  induction calls generalizing a i with
  | nil => simp [run]
  | cons call calls ih =>
    cases i with
    | zero => rfl
    | succ i =>
      change ((a.solve call.problem call.laps).1.run calls).2[i]? = _
      rw [ih]
      rfl

theorem outcome_of_run (a : Adapter σ T W) {calls : List (Call T)} {i : Nat} {call : Call T}
    (hcall : calls[i]? = some call) :
    (a.run calls).2[i]? = some ((a.answersAt calls i call.problem).outcome a.settings a.table
      call.problem call.laps) := by
  obtain ⟨state, target, hframe⟩ := a.run_frame (calls.take i)
  rw [run_getElem?, hcall, Option.map_some, solve_outcome, answersAt, hframe]

theorem exists_returned {a : Adapter σ T W} {calls : List (Call T)} {i : Nat} {test : Record T → Bool}
    (h : ((a.run calls).2[i]?.bind Except.toOption).any test = true) :
    ∃ r, (a.run calls).2[i]? = some (.ok r) ∧ test r = true := by
  cases hreturned : (a.run calls).2[i]? with
  | none =>
    rw [hreturned] at h
    cases h
  | some outcome =>
    rw [hreturned] at h
    cases outcome with
    | error panic => cases h
    | ok r => exact ⟨r, rfl, h⟩

/-! ## Two runs -/

theorem SameEngine.solve {a b : Adapter σ T W} (h : a.SameEngine b) (p : Problem T) (laps : Laps) :
    (a.solve p laps).1.SameEngine (b.solve p laps).1 := by
  obtain ⟨target, ha⟩ := a.solve_advanced p laps
  obtain ⟨target', hb⟩ := b.solve_advanced p laps
  rw [ha, hb]
  exact ⟨h.engine, advanced_congr h p, h.verbose⟩

theorem SameEngine.run {a b : Adapter σ T W} (h : a.SameEngine b) (calls : List (Call T)) :
    (a.run calls).1.SameEngine (b.run calls).1 := by
  induction calls generalizing a b with
  | nil => exact h
  | cons call calls ih => exact ih (h.solve call.problem call.laps)

theorem answersAt_congr {a b : Adapter σ T W} (h : a.SameEngine b) (calls : List (Call T)) (i : Nat)
    (p : Problem T) : b.answersAt calls i p = a.answersAt calls i p :=
  answers_congr (h.run (calls.take i)) p

end Adapter

/-! ## Small runs -/

/-- An engine that gives the same answers in every call, and whose log always panics. -/
def Answers.engine (w : Answers T W) : Engine Unit T W where
  solve _ _ _ := ((), w.solve)
  status _ := w.status
  info _ := w.info
  takeLog _ := ((), .error .other)
  revert _ _ := w.revert

/-- Minimize `u²` subject to `-u ≤ -1`, in no time. The solution is one, with the multiplier two. -/
def squareCall : Call Float where
  problem :=
    ⟨⟨1, 1, #[0, 1], #[0], #[2]⟩, [0], ⟨1, 1, #[0, 1], #[0], #[-1]⟩, [-1], [⟨.inequality, 1⟩]⟩
  laps := ⟨⟨0, 0⟩, ⟨0, 0⟩, ⟨0, 0⟩⟩

theorem squareCall_built : squareCall.problem.Built := by
  with_unfolding_all rfl

/-- The same problem, with phases that take some time. -/
def slowCall : Call Float :=
  ⟨squareCall.problem, ⟨⟨0, 1500000000⟩, ⟨1500000000, 1502000000⟩, ⟨1502000000, 1502250000⟩⟩⟩

end QpReferee

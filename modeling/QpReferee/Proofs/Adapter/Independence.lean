import QpReferee.Proofs.Adapter.Diagnostics
import QpReferee.Proofs.Adapter.Transcript

/-!
# Calls on one adapter

From call to call an adapter carries the state of its engine, its target, and what it was made with.
Stopwatches, candidate and record are made anew in each call, also after one that failed or panicked. So what
a call returns and what it writes follow from the engine's responses in that call, whatever the calls before
it were; a new adapter gives the same for the same responses.

* `Responses`, `Adapter.responsesAt` : what an engine responds in a call, its log included.
* `Responses.effect`, `Effect.Observed` : what a call returns and writes, as a function of the responses.
* `Responses.Alike.effect` : responses that nobody asked for and the hour of the call have no part in it.
* `Adapter.effect_of_run` : a call of a run has the effect of the responses in it.
* `Adapter.calls_independent` : **calls on one adapter are independent.**
-/

namespace QpReferee

open Utf8

variable {σ T W : Type}

/-- What an engine responds in a call. -/
structure Responses (T W : Type) where
  answers : Answers T W
  log : Attempt (Option String)

/-- What a call returns and what it writes. -/
structure Effect (T : Type) where
  outcome : Attempt (Record T)
  transcript : Transcript

/-- A call has an effect: it returned the outcome, and its target received the transcript. A target that
refuses nothing has the text of the transcript at its end then. -/
structure Effect.Observed (e : Effect T) (returned : Option (Attempt (Record T))) (before after : Target) :
    Prop where
  outcome : returned = some e.outcome
  target : after = before.receive e.transcript
  kept : before.Keeps → after.Keeps ∧ after.stored = before.stored ++ encode e.transcript.text

theorem Effect.observed_of {e : Effect T} {returned : Option (Attempt (Record T))} {before after : Target}
    (houtcome : returned = some e.outcome) (htarget : after = before.receive e.transcript) :
    e.Observed returned before after := by
  refine ⟨houtcome, htarget, fun hkeeps => ?_⟩
  rw [htarget]
  exact Target.keeps_receive hkeeps e.transcript

section

variable [BinaryScalar T] {w w' : Answers T W} {name : String} {s : Settings} {table : W → Status}
  {p : Problem T} {laps laps' : Laps}

theorem Answers.outcome_times (h : laps.SameTimes laps') :
    w.outcome s table p laps' = w.outcome s table p laps := by
  have hspent : ∀ info : EngineInfo, info.runTime.getD
      ((Stopwatches.empty.lap "solve" laps'.solve).elapsed "solve").seconds =
        info.runTime.getD ((Stopwatches.empty.lap "solve" laps.solve).elapsed "solve").seconds := by
    intro info
    have hsolve : (⟨laps'.solve.ended - laps'.solve.began⟩ : Duration) =
        ⟨laps.solve.ended - laps.solve.began⟩ := h.solve
    rw [elapsed_lap, elapsed_lap, hsolve]
  simp only [Answers.outcome, Answers.record, hspent]

theorem Answers.conclusion_times (h : laps.SameTimes laps') :
    w.conclusion name s table p laps' = w.conclusion name s table p laps := by
  simp only [Answers.conclusion, h.report]

theorem Answers.Alike.conclusion (h : w.Alike w') :
    w'.conclusion name s table p laps = w.conclusion name s table p laps := by
  unfold Answers.conclusion
  rw [h.solve]
  rcases hsolve : w.solve with panic | error | objective
  · rfl
  · rfl
  have hcompleted : w.Completed := ⟨objective, hsolve⟩
  rw [h.status hcompleted]
  rcases hstatus : w.status with panic | word
  · rfl
  have hanswered : ∃ word, w.status = .ok word := ⟨word, hstatus⟩
  rw [h.info hcompleted hanswered]
  rcases hinfo : w.info with panic | info
  · rfl
  have hcandidate : w'.candidate = w.candidate := h.candidate hcompleted hanswered ⟨info, hinfo⟩
  simp only [Answers.failure, hcandidate]

end

namespace Responses

/-- Equal responses to the questions that are asked; the log only if the settings are verbose. -/
structure Alike (s : Settings) (w w' : Responses T W) : Prop where
  answers : w.answers.Alike w'.answers
  log : s.isVerbose = true → w'.log = w.log

theorem Alike.refl (s : Settings) (w : Responses T W) : Alike s w w := ⟨.refl _, fun _ => rfl⟩

variable [BinaryScalar T]

/-- What a call returns and writes, given the engine's responses. -/
def effect (w : Responses T W) (name : String) (s : Settings) (table : W → Status) (p : Problem T)
    (laps : Laps) : Effect T :=
  ⟨w.answers.outcome s table p laps, w.answers.transcript w.log name s table p laps⟩

theorem Alike.effect {w w' : Responses T W} {s : Settings} (h : Alike s w w') {laps laps' : Laps}
    (htimes : laps.SameTimes laps') (name : String) (table : W → Status) (p : Problem T) :
    w'.effect name s table p laps' = w.effect name s table p laps := by
  have houtcome : w'.answers.outcome s table p laps' = w.answers.outcome s table p laps :=
    (Answers.outcome_times htimes).trans (h.answers.outcome s s.verbose table p laps)
  have htranscript : w'.answers.transcript w'.log name s table p laps' =
      w.answers.transcript w.log name s table p laps := by
    unfold Answers.transcript Settings.shown
    by_cases hverbose : s.isVerbose = true
    · rw [if_pos hverbose, if_pos hverbose, h.log hverbose, Answers.conclusion_times htimes,
        h.answers.conclusion]
    · rw [if_neg hverbose, if_neg hverbose]
  unfold Responses.effect
  rw [houtcome, htranscript]

end Responses

namespace Adapter

/-- What the engine responds in a call. -/
def responses (a : Adapter σ T W) (p : Problem T) : Responses T W := ⟨a.answers p, a.log p⟩

variable [BinaryScalar T]

/-- The responses of the engine in the call at an index of a run. -/
def responsesAt (a : Adapter σ T W) (calls : List (Call T)) (i : Nat) (p : Problem T) : Responses T W :=
  (a.run (calls.take i)).1.responses p

/-- The effect of the responses in the call at an index of a run. -/
def effectAt (a : Adapter σ T W) (calls : List (Call T)) (i : Nat) (call : Call T) : Effect T :=
  (a.responsesAt calls i call.problem).effect a.name a.settings a.table call.problem call.laps

theorem run_take_succ (a : Adapter σ T W) {calls : List (Call T)} {i : Nat} {call : Call T}
    (hcall : calls[i]? = some call) : (a.run (calls.take (i + 1))).1 =
      ((a.run (calls.take i)).1.solve call.problem call.laps).1 := by
  induction calls generalizing a i with
  | nil => cases hcall
  | cons first calls ih =>
    cases i with
    | zero =>
      cases hcall
      rfl
    | succ i => exact ih (a.solve first.problem first.laps).1 hcall

theorem solve_effect (a : Adapter σ T W) (p : Problem T) (laps : Laps) :
    ((a.responses p).effect a.name a.settings a.table p laps).Observed (some (a.solve p laps).2) a.target
      (a.solve p laps).1.target :=
  Effect.observed_of (congrArg some (a.solve_outcome p laps)) (a.solve_target p laps)

/-- A call of a run has the effect of the engine's responses in it, and of nothing else from before. -/
theorem effect_of_run (a : Adapter σ T W) {calls : List (Call T)} {i : Nat} {call : Call T}
    (hcall : calls[i]? = some call) :
    (a.effectAt calls i call).Observed (a.run calls).2[i]? (a.run (calls.take i)).1.target
      (a.run (calls.take (i + 1))).1.target := by
  have heffect := (a.run (calls.take i)).1.solve_effect call.problem call.laps
  have hreturned : (a.run calls).2[i]? =
      some ((a.run (calls.take i)).1.solve call.problem call.laps).2 := by
    rw [run_getElem?, hcall, Option.map_some]
  obtain ⟨state, target, hframe⟩ := a.run_frame (calls.take i)
  rw [hreturned, run_take_succ a hcall]
  rw [hframe] at heffect ⊢
  rw [effectAt, responsesAt, hframe]
  exact heffect

theorem effectAt_congr {σ' : Type} {a : Adapter σ T W} {b : Adapter σ' T W} (hname : b.name = a.name)
    (hsettings : b.settings = a.settings) (htable : b.table = a.table) {calls calls' : List (Call T)}
    {i j : Nat} {call call' : Call T} (hproblem : call'.problem = call.problem)
    (htimes : call.laps.SameTimes call'.laps)
    (halike : Responses.Alike a.settings (a.responsesAt calls i call.problem)
      (b.responsesAt calls' j call.problem)) :
    b.effectAt calls' j call' = a.effectAt calls i call := by
  unfold effectAt
  rw [hname, hsettings, htable, hproblem]
  exact halike.effect htimes a.name a.table call.problem

/-- **Calls on one adapter are independent.** A call of a run has the effect that follows from the engine's
responses in it. Any call of any run of an adapter with the same name, settings and table, in which the
engine responds alike and the phases take the same times, has that effect too; and so has the first call of
a new adapter. -/
theorem calls_independent (a : Adapter σ T W) {calls : List (Call T)} {i : Nat} {call : Call T}
    (hcall : calls[i]? = some call) :
    (a.effectAt calls i call).Observed (a.run calls).2[i]? (a.run (calls.take i)).1.target
      (a.run (calls.take (i + 1))).1.target ∧
    (∀ {σ' : Type} (b : Adapter σ' T W) (calls' : List (Call T)) (j : Nat) (call' : Call T),
      calls'[j]? = some call' → b.name = a.name → b.settings = a.settings → b.table = a.table →
        call'.problem = call.problem → call.laps.SameTimes call'.laps →
          Responses.Alike a.settings (a.responsesAt calls i call.problem)
            (b.responsesAt calls' j call.problem) →
              (a.effectAt calls i call).Observed (b.run calls').2[j]? (b.run (calls'.take j)).1.target
                (b.run (calls'.take (j + 1))).1.target) ∧
    ∀ {σ' : Type} (engine : Engine σ' T W) (state : σ') (laps : Laps), call.laps.SameTimes laps →
      Responses.Alike a.settings (a.responsesAt calls i call.problem)
        ((new a.name engine a.table a.settings state).responses call.problem) →
          (a.effectAt calls i call).Observed
            (some ((new a.name engine a.table a.settings state).solve call.problem laps).2)
            (.console .unlimited)
            ((new a.name engine a.table a.settings state).solve call.problem laps).1.target := by
  refine ⟨a.effect_of_run hcall, ?_, ?_⟩
  · intro σ' b calls' j call' hcall' hname hsettings htable hproblem htimes halike
    rw [← effectAt_congr hname hsettings htable hproblem htimes halike]
    exact b.effect_of_run hcall'
  · intro σ' engine state laps htimes halike
    have heffect := (new a.name engine a.table a.settings state).solve_effect call.problem laps
    have hsame := halike.effect htimes a.name a.table call.problem
    rw [effectAt, ← hsame]
    exact heffect

/-- An engine that panics in its first solve and succeeds in every later one. -/
def flakyEngine : Engine Nat Float Status where
  solve solved _ _ := (solved + 1, if solved = 0 then .error (.text "boom") else .ok (.ok 1))
  status _ := .ok .optimal
  info _ := .ok .unknown
  takeLog solved := (solved, .ok (some "iter 1\n"))
  revert _ _ := .ok ⟨some [1], some [2]⟩

def steadyEngine : Engine Unit Float Status :=
  { Answers.engine ⟨.ok (.ok 1), .ok .optimal, .ok .unknown, .ok ⟨some [1], some [2]⟩⟩ with
    takeLog := fun _ => ((), .ok (some "iter 1\n")) }

/-- An adapter with diagnostics in a buffer, before its first call. -/
def flaky : Adapter Nat Float Status :=
  { new "MOCK" flakyEngine id { Settings.default with verbose := some true } 0 with target := .buffer #[] }

/-- A new adapter with the same settings. -/
def steady : Adapter Unit Float Status := .new "MOCK" steadyEngine id flaky.settings ()

/-- The first call of a run panics. The second one returns what a new adapter returns at another hour, and
writes the same text after that of the first. -/
theorem flaky_recovers :
    (flaky.run [squareCall, squareCall]).2[0]? = some (.ok .failed) ∧
    (flaky.run [squareCall, squareCall]).2[1]? =
      some (steady.solve squareCall.problem ⟨⟨7, 7⟩, ⟨8, 8⟩, ⟨9, 9⟩⟩).2 ∧
    ∃ text, (steady.solve squareCall.problem ⟨⟨7, 7⟩, ⟨8, 8⟩, ⟨9, 9⟩⟩).1.target.stored = encode text ∧
      (flaky.run [squareCall, squareCall]).1.target.stored =
        (flaky.run [squareCall]).1.target.stored ++ encode text := by
  have htimes : squareCall.laps.SameTimes ⟨⟨7, 7⟩, ⟨8, 8⟩, ⟨9, 9⟩⟩ := ⟨rfl, rfl, rfl⟩
  -- Only the times of the call matter from here on.
  generalize squareCall = call at htimes ⊢
  have hcall : [call, call][1]? = some call := rfl
  obtain ⟨hsecond, -, hnew⟩ := calls_independent flaky hcall
  have hfirst := hnew steadyEngine () ⟨⟨7, 7⟩, ⟨8, 8⟩, ⟨9, 9⟩⟩ htimes (.refl _ _)
  have hfailed : [call, call][0]? = some call := rfl
  have hbuffer := ((flaky.effect_of_run hfailed).kept trivial).1
  have hconsole : (Target.console .unlimited).Keeps :=
    fun _ _ offered hoffered => ⟨offered - 1, congrArg some (Nat.sub_add_cancel hoffered).symm⟩
  exact ⟨outcome_of_run flaky hfailed, hsecond.outcome.trans hfirst.outcome.symm, _,
    (hfirst.kept hconsole).2.trans Array.empty_append, (hsecond.kept hbuffer).2⟩

end Adapter

end QpReferee

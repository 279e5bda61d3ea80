import QpReferee.Proofs.Adapter.Records

/-!
# Diagnostics

Settings that ask for diagnostics make a call longer: the engine is asked for its log, which may panic, and
lines are written to a target, which may fail. None of this reaches a record. Two runs that differ only in
their verbosity and their targets branch differently, but each outcome is a function of the engine's
answers, and an engine that ignores the verbosity and whose log shows in no answer gives the same answers
in both.

* `Adapter.SameButDiagnostics` : adapters that differ in nothing else.
* `Answers.Alike` : equal answers to the questions that are asked.
* `Engine.Discreet` : an engine whose answers show neither the verbosity nor the log.
* `Adapter.answersAt_eq` : such an engine gives the same answers in every call of both runs.
* `Adapter.diagnostics_influence_nothing` : **the outcomes of both runs are the same.**
-/

namespace QpReferee

variable {σ T W : Type}

namespace Answers

/-- Equal answers to the questions that are asked: the status after a solve that completed, the statistics
after a status, the solution after the statistics. -/
structure Alike (w w' : Answers T W) : Prop where
  solve : w'.solve = w.solve
  status : w.Completed → w'.status = w.status
  info : w.Completed → (∃ word, w.status = .ok word) → w'.info = w.info
  revert : w.Completed → (∃ word, w.status = .ok word) → (∃ info, w.info = .ok info) →
    w'.revert = w.revert

theorem Alike.refl (w : Answers T W) : w.Alike w :=
  ⟨rfl, fun _ => rfl, fun _ _ => rfl, fun _ _ _ => rfl⟩

theorem Alike.candidate {w w' : Answers T W} (h : w.Alike w') (hcompleted : w.Completed)
    (hstatus : ∃ word, w.status = .ok word) (hinfo : ∃ info, w.info = .ok info) :
    w'.candidate = w.candidate := by
  unfold Answers.candidate
  rw [h.revert hcompleted hstatus hinfo]

variable [BinaryScalar T]

/-- Neither an answer that is not asked for nor the verbosity has a part in the outcome. -/
theorem Alike.outcome {w w' : Answers T W} (h : w.Alike w') (s : Settings) (verbose : Option Bool)
    (table : W → Status) (p : Problem T) (laps : Laps) :
    w'.outcome { s with verbose } table p laps = w.outcome s table p laps := by
  show w'.outcome s table p laps = w.outcome s table p laps
  unfold Answers.outcome
  rw [h.solve]
  rcases hsolve : w.solve with panic | error | objective
  · rfl
  · rfl
  have hcompleted : w.Completed := ⟨objective, hsolve⟩
  rw [h.status hcompleted]
  rcases hstatus : w.status with panic | word
  · rfl
  have hanswered : ∃ word, w.status = .ok word := ⟨word, hstatus⟩
  rw [h.info hcompleted hanswered]
  rcases hinfo : w.info with panic | info
  · rfl
  have hcandidate := h.candidate hcompleted hanswered ⟨info, hinfo⟩
  simp only [failure, record, hcandidate]

end Answers

/-- An engine that ignores the verbosity and whose log shows in no answer: states that differ only by logs
that were taken are related, and answer alike. -/
structure Engine.Discreet (e : Engine σ T W) (R : σ → σ → Prop) : Prop where
  solve : ∀ {s s' : σ}, R s s' → ∀ (p : Problem T) (verbose verbose' : Bool),
    (e.solve s' p verbose').2 = (e.solve s p verbose).2 ∧
      R (e.solve s p verbose).1 (e.solve s' p verbose').1
  status : ∀ {s s' : σ}, R s s' → e.status s' = e.status s
  info : ∀ {s s' : σ}, R s s' → e.info s' = e.info s
  revert : ∀ {s s' : σ}, R s s' → ∀ p : Problem T, e.revert s' p = e.revert s p
  takeLog_left : ∀ {s s' : σ}, R s s' → R (e.takeLog s).1 s'
  takeLog_right : ∀ {s s' : σ}, R s s' → R s (e.takeLog s').1

namespace Adapter

/-- Two adapters that differ at most in the verbosity of their settings, in their targets and in the states
of their engine. -/
structure SameButDiagnostics (a b : Adapter σ T W) : Prop where
  name : b.name = a.name
  engine : b.engine = a.engine
  table : b.table = a.table
  settings : b.settings = { a.settings with verbose := b.settings.verbose }

variable {a b : Adapter σ T W} {R : σ → σ → Prop}

theorem discreet_log (he : a.engine.Discreet R) {s s' : σ} (hR : R s s') (verbose verbose' : Bool) :
    R (if verbose then (a.engine.takeLog s).1 else s)
      (if verbose' then (a.engine.takeLog s').1 else s') := by
  have hleft : R (if verbose then (a.engine.takeLog s).1 else s) s' := by
    split_ifs
    · exact he.takeLog_left hR
    · exact hR
  cases verbose' with
  | true => exact he.takeLog_right hleft
  | false => exact hleft

theorem advanced_related (h : a.SameButDiagnostics b) (he : a.engine.Discreet R)
    (hR : R a.state b.state) (p : Problem T) : R (a.advanced p) (b.advanced p) := by
  unfold advanced
  rw [h.engine]
  exact discreet_log he (he.solve hR p _ _).2 _ _

theorem answers_eq (h : a.SameButDiagnostics b) (he : a.engine.Discreet R) (hR : R a.state b.state)
    (p : Problem T) : b.answers p = a.answers p := by
  have hstates := advanced_related h he hR p
  have hsolve := (he.solve hR p a.settings.isVerbose b.settings.isVerbose).1
  show Answers.mk _ (b.engine.status (b.advanced p)) (b.engine.info (b.advanced p))
    (b.engine.revert (b.advanced p) p) = _
  rw [h.engine, hsolve, he.status hstates, he.info hstates, he.revert hstates]
  rfl

/-! ## Two runs -/

variable [BinaryScalar T]

theorem SameButDiagnostics.solve (h : a.SameButDiagnostics b) (p : Problem T) (laps : Laps) :
    (a.solve p laps).1.SameButDiagnostics (b.solve p laps).1 := by
  obtain ⟨target, ha⟩ := a.solve_advanced p laps
  obtain ⟨target', hb⟩ := b.solve_advanced p laps
  rw [ha, hb]
  exact ⟨h.name, h.engine, h.table, h.settings⟩

theorem solve_related (h : a.SameButDiagnostics b) (he : a.engine.Discreet R) (hR : R a.state b.state)
    (p : Problem T) (laps : Laps) : (a.solve p laps).1.engine.Discreet R ∧
      R (a.solve p laps).1.state (b.solve p laps).1.state := by
  obtain ⟨target, ha⟩ := a.solve_advanced p laps
  obtain ⟨target', hb⟩ := b.solve_advanced p laps
  rw [ha, hb]
  exact ⟨he, advanced_related h he hR p⟩

theorem answersAt_eq (h : a.SameButDiagnostics b) (he : a.engine.Discreet R) (hR : R a.state b.state)
    (calls : List (Call T)) (i : Nat) (p : Problem T) :
    b.answersAt calls i p = a.answersAt calls i p := by
  unfold answersAt
  -- the induction is on the calls that were made before, in both runs at once
  induction calls.take i generalizing a b with
  | nil => exact answers_eq h he hR p
  | cons call calls ih =>
    obtain ⟨he', hR'⟩ := solve_related h he hR call.problem call.laps
    exact ih (h.solve call.problem call.laps) he' hR'

theorem outcomes_eq (h : a.SameButDiagnostics b) {calls : List (Call T)}
    (halike : ∀ i call, calls[i]? = some call →
      (a.answersAt calls i call.problem).Alike (b.answersAt calls i call.problem)) :
    (b.run calls).2 = (a.run calls).2 := by
  apply List.ext_getElem?
  intro i
  cases hcall : calls[i]? with
  | none => rw [run_getElem?, run_getElem?, hcall, Option.map_none, Option.map_none]
  | some call =>
    rw [outcome_of_run a hcall, outcome_of_run b hcall, h.table, h.settings,
      (halike i call hcall).outcome]

/-- **Diagnostics influence nothing.** Two runs of adapters that differ only in their verbosity and their
targets return the same outcomes call by call, if the engine gives the same answers in both; and it does,
if it ignores the verbosity and its log, which may panic, shows in no answer. -/
theorem diagnostics_influence_nothing (h : a.SameButDiagnostics b) (calls : List (Call T)) :
    ((∀ i call, calls[i]? = some call →
        (a.answersAt calls i call.problem).Alike (b.answersAt calls i call.problem)) →
      (b.run calls).2 = (a.run calls).2) ∧
    ∀ R, a.engine.Discreet R → R a.state b.state → (b.run calls).2 = (a.run calls).2 := by
  refine ⟨fun halike => outcomes_eq h halike, ?_⟩
  intro R he hR
  apply outcomes_eq h
  intro i call _
  rw [answersAt_eq h he hR]
  exact .refl _

/-- An engine that counts how often its log was asked for, and panics each time. -/
def countingEngine : Engine Nat Float Status where
  solve asked _ _ := (asked, .ok (.ok 1))
  status _ := .ok .optimal
  info _ := .ok .unknown
  takeLog asked := (asked + 1, .error .other)
  revert _ _ := .ok ⟨some [1], some [2]⟩

theorem countingEngine_discreet : countingEngine.Discreet fun _ _ => True where
  solve _ _ _ _ := ⟨rfl, trivial⟩
  status _ := rfl
  info _ := rfl
  revert _ _ := rfl
  takeLog_left _ := trivial
  takeLog_right _ := trivial

def silent : Adapter Nat Float Status := .new "MOCK" countingEngine id .default 0

/-- The same adapter with diagnostics, on a stream that takes three bytes and refuses the rest. -/
def loud : Adapter Nat Float Status :=
  { silent with
    settings := { Settings.default with verbose := some true }
    target := .stream (.limited ⟨none, some 3, false, true⟩) }

/-- The log of the second run was asked for twice, and nothing else tells the runs apart. -/
theorem loud_like_silent : (loud.run [squareCall, squareCall]).2 =
    (silent.run [squareCall, squareCall]).2 := by
  have h : silent.SameButDiagnostics loud := ⟨rfl, rfl, rfl, rfl⟩
  exact (diagnostics_influence_nothing h [squareCall, squareCall]).2 _ countingEngine_discreet trivial

end Adapter

end QpReferee

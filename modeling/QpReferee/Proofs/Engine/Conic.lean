import QpReferee.Engine.Conic
import QpReferee.Proofs.Adapter.Run
import QpReferee.Proofs.Timing.Intervals

/-!
# The conic engine keeps no stale answers

A solve forgets the last one before it asks the solver anything, and it may end early at every question. Nothing
is kept before the solver has run to its end, so a solve that ended early leaves what a new engine knows; and one
that ran to its end leaves what its own solver found. The log is handed out once.

* `Conic.Backend.Finds` : the solver runs to its end.
* `Conic.solve_cases` : what a solve can come to, and what the engine then knows.
* `Conic.answers_of_latest` : **the engine answers from its latest solve alone.**
-/

namespace QpReferee

theorem Stopwatches.elapsed_lap (t : Stopwatches) (key other : String) (span : Span) :
    (t.lap key span).elapsed other = if other = key then t.elapsed key + span.duration else t.elapsed other := by
  rw [lap, elapsed_eq, watch_stop, watch_start, watch_start]
  by_cases h : other = key
  · rw [if_pos h, if_pos h, if_pos rfl, elapsed_eq]
    rfl
  · rw [if_neg h, if_neg h, if_neg h, elapsed_eq]

namespace Conic

variable {T α : Type}

/-! ## What a solve comes to -/

namespace Backend

/-- The solver accepts its settings and the problem, and runs to its end with a solution and, if it was asked
to write one, a log that can be had or not. -/
structure Finds (backend : Backend T) (p : Problem T) (verbose : Bool) (found : Solution T) (log : Option String) :
    Prop where
  configure : backend.configure verbose = .ok (.ok ())
  prepare : backend.prepare p (cones p.blocks) verbose = .ok (.ok ())
  run : backend.run p (cones p.blocks) verbose = .ok found
  log : if verbose then ∃ text, backend.log p found = .ok text ∧ log = text.toOption else log = none

theorem info_eq (backend : Backend T) (found : Solution T) :
    backend.info found = ⟨some backend.setupLap.duration.seconds, some backend.solveLap.duration.seconds,
      some found.iterations⟩ := by
  have hsetup : ((Stopwatches.empty.lap "setup" backend.setupLap).lap "solve" backend.solveLap).elapsed "setup" =
      backend.setupLap.duration := by
    rw [Stopwatches.elapsed_lap, if_neg (by decide), Stopwatches.elapsed_lap, if_pos rfl]
    exact Duration.zero_add _
  have hsolve : ((Stopwatches.empty.lap "setup" backend.setupLap).lap "solve" backend.solveLap).elapsed "solve" =
      backend.solveLap.duration := by
    rw [Stopwatches.elapsed_lap, if_pos rfl, Stopwatches.elapsed_lap, if_neg (by decide)]
    exact Duration.zero_add _
  unfold info
  dsimp only
  rw [hsetup, hsolve]

theorem Finds.work {backend : Backend T} {p : Problem T} {verbose : Bool} {found : Solution T} {log : Option String}
    (h : backend.Finds p verbose found log) (s : State T) :
    (backend.work p verbose).run.run s = (.ok found.objective, ⟨some found, backend.info found, log⟩) := by
  obtain ⟨hconfigure, hprepare, hrun, hlog⟩ := h
  unfold Backend.work
  rw [hconfigure, hprepare, hrun]
  show (backend.keep p verbose found).run.run .fresh = _
  unfold keep
  cases verbose with
  | false =>
    cases hlog
    rfl
  | true =>
    obtain ⟨text, htext, rfl⟩ := hlog
    rw [htext]
    rfl

theorem keep_of_log (backend : Backend T) {p : Problem T} {found : Solution T} {panic : Panic}
    (h : backend.log p found = .error panic) (s : State T) :
    (backend.keep p true found).run.run s = (.error (.panicked panic), s) := by
  unfold keep
  rw [h]
  rfl

theorem finds_or_stops (backend : Backend T) (s : State T) (p : Problem T) (verbose : Bool) :
    (∃ found log, backend.Finds p verbose found log) ∨
    ∃ stop, (backend.work p verbose).run.run s = (.error stop, .fresh) := by
  unfold work
  cases hconfigure : backend.configure verbose with
  | error panic => exact .inr ⟨.panicked panic, rfl⟩
  | ok accepted =>
    cases accepted with
    | error text => exact .inr ⟨.refused (.solverFailure text), rfl⟩
    | ok _ =>
      cases hprepare : backend.prepare p (cones p.blocks) verbose with
      | error panic => exact .inr ⟨.panicked panic, rfl⟩
      | ok accepted =>
        cases accepted with
        | error text => exact .inr ⟨.refused (.badProblem text), rfl⟩
        | ok _ =>
          cases hrun : backend.run p (cones p.blocks) verbose with
          | error panic => exact .inr ⟨.panicked panic, rfl⟩
          | ok found =>
            cases verbose with
            | false => exact .inl ⟨found, none, hconfigure, hprepare, hrun, rfl⟩
            | true =>
              -- the engine still knows nothing when the log is asked for
              cases hlog : backend.log p found with
              | error panic => exact .inr ⟨.panicked panic, backend.keep_of_log hlog .fresh⟩
              | ok text => exact .inl ⟨found, text.toOption, hconfigure, hprepare, hrun, text, hlog, rfl⟩

end Backend

theorem Backend.Finds.solve {backend : Backend T} {p : Problem T} {verbose : Bool} {found : Solution T}
    {log : Option String} (h : backend.Finds p verbose found log) (s : State T) :
    Conic.solve backend s p verbose = (⟨some found, backend.info found, log⟩, .ok (.ok found.objective)) := by
  unfold Conic.solve
  rw [h.work]

/-- What a solve can come to: its solver runs to its end, and the engine knows what was found and nothing else; or
it ends early, and the engine knows nothing. -/
theorem solve_cases (backend : Backend T) (s : State T) (p : Problem T) (verbose : Bool) :
    (∃ found log, backend.Finds p verbose found log ∧
      solve backend s p verbose = (⟨some found, backend.info found, log⟩, .ok (.ok found.objective))) ∨
    (solve backend s p verbose).1 = .fresh ∧ ∀ objective, (solve backend s p verbose).2 ≠ .ok (.ok objective) := by
  rcases backend.finds_or_stops s p verbose with ⟨found, log, hfinds⟩ | ⟨stop, hstops⟩
  · exact .inl ⟨found, log, hfinds, hfinds.solve s⟩
  · unfold solve
    rw [hstops]
    cases stop with
    | refused error => exact .inr ⟨rfl, fun _ h => by cases h⟩
    | panicked panic => exact .inr ⟨rfl, fun _ h => by cases h⟩

/-! ## Sequences of calls -/

/-- A call of the engine. The solver may be another one in each solve. -/
inductive Call (T : Type) where
  | solve (backend : Backend T) (p : Problem T) (verbose : Bool)
  | takeLog

/-- What a call replies. -/
inductive Reply (T : Type) where
  | outcome (outcome : Attempt (Except EngineError T))
  | log (log : Option String)

def step (s : State T) : Call T → State T × Reply T
  | .solve backend p verbose =>
    let (s, outcome) := solve backend s p verbose
    (s, .outcome outcome)
  | .takeLog =>
    let (s, log) := s.takeLog
    (s, .log log)

/-- What the engine answers to all of its questions but to solve a problem. -/
structure Tells (s : State T) (word : Word) (info : EngineInfo) (c : Candidate T) (log : Option String) : Prop where
  status : ∀ backend, (engine backend).status s = .ok word
  info : ∀ backend, (engine backend).info s = .ok info
  revert : ∀ backend p, (engine backend).revert s p = .ok c
  takeLog : ∀ backend, ((engine backend).takeLog s).2 = .ok log

theorem after_takeLog (s : State T) (taken : Nat) : Session.after step s (List.replicate taken .takeLog) =
    { s with log := if taken = 0 then s.log else none } := by
  induction taken with
  | zero => rfl
  | succ taken ih =>
    rw [List.replicate_succ', Session.after_concat, ih, if_neg (Nat.succ_ne_zero taken)]
    rfl

/-- **The engine answers from its latest solve alone**, whatever the calls before it were and their solvers found.
A solve gives an objective exactly if its solver runs to its end, and that solver's. After a solve that gave an
objective the engine answers what the solver of that solve found; the log, if that solve was asked for one, is
handed out once. After a solve that did not, it answers what a new engine does. -/
theorem answers_of_latest (before : List (Call T)) (backend : Backend T) (p : Problem T) (verbose : Bool)
    (taken : Nat) :
    let s := Session.after step .fresh (before ++ .solve backend p verbose :: List.replicate taken .takeLog)
    let outcome := (solve backend (Session.after step .fresh before) p verbose).2
    (∀ objective, outcome = .ok (.ok objective) ↔
      ∃ found log, backend.Finds p verbose found log ∧ objective = found.objective) ∧
    match outcome with
    | .ok (.ok objective) => ∃ found log, backend.Finds p verbose found log ∧ objective = found.objective ∧
        Tells s found.word ⟨some backend.setupLap.duration.seconds, some backend.solveLap.duration.seconds,
          some found.iterations⟩ ⟨some found.x, some found.z⟩ (if taken = 0 then log else none)
    | .ok (.error _) | .error _ => Tells s .unsolved .unknown .empty none := by
  intro s outcome
  have hs : s = Session.after step (solve backend (Session.after step .fresh before) p verbose).1
      (List.replicate taken .takeLog) := by
    show Session.after step .fresh _ = _
    rw [List.append_cons, Session.after_append, Session.after_concat]
    rfl
  rw [after_takeLog] at hs
  rcases solve_cases backend (Session.after step .fresh before) p verbose with
    ⟨found, log, hfinds, hsolve⟩ | ⟨hfresh, hnone⟩
  · have houtcome : outcome = .ok (.ok found.objective) := congrArg Prod.snd hsolve
    rw [hsolve] at hs
    rw [houtcome]
    refine ⟨fun objective => ⟨fun h => ?_, fun ⟨other, log', hother, hobjective⟩ => ?_⟩, found, log, hfinds, rfl, ?_⟩
    · cases h
      exact ⟨found, log, hfinds, rfl⟩
    · cases hfinds.run.symm.trans hother.run
      rw [hobjective]
    · rw [hs, ← backend.info_eq]
      exact ⟨fun _ => rfl, fun _ => rfl, fun _ _ => rfl, fun _ => rfl⟩
  · have htells : Tells s .unsolved .unknown .empty none := by
      rw [hs, hfresh]
      refine ⟨fun _ => rfl, fun _ => rfl, fun _ _ => rfl, fun _ => ?_⟩
      exact congrArg Except.ok (ite_self none)
    refine ⟨fun objective => ⟨fun h => absurd h (hnone objective), fun ⟨found, log, hfinds, _⟩ => ?_⟩, ?_⟩
    · exact absurd (congrArg Prod.snd (hfinds.solve _)) (hnone found.objective)
    · subst outcome
      split
      · next h => exact absurd h (hnone _)
      · exact htells
      · exact htells

/-- A solver that finds the same for every problem. -/
def finding : Backend Float where
  configure _ := .ok (.ok ())
  prepare _ _ _ := .ok (.ok ())
  run _ _ _ := .ok ⟨.solved, 1, [1], [2], 7⟩
  log _ _ := .ok (.ok "iter 7\n")
  setupLap := ⟨0, 1000000⟩
  solveLap := ⟨1000000, 5000000⟩

def panicking : Backend Float :=
  { finding with run := fun _ _ _ => .error (.text "boom") }

/-- A solve with a log after one that panicked: its answers are told, and the log once. -/
theorem reused_answers :
    let p := squareCall.problem
    let s := Session.after step .fresh [.solve panicking p true, .takeLog, .solve finding p true]
    let info : EngineInfo := ⟨some (Duration.mk 1000000).seconds, some (Duration.mk 4000000).seconds, some 7⟩
    Tells s .solved info ⟨some [1], some [2]⟩ (some "iter 7\n") ∧
      Tells s.takeLog.1 .solved info ⟨some [1], some [2]⟩ none := by
  intro p s info
  have hfinds : finding.Finds p true ⟨.solved, 1, [1], [2], 7⟩ (some "iter 7\n") :=
    ⟨rfl, rfl, rfl, .ok "iter 7\n", rfl, rfl⟩
  have hsetup : finding.setupLap.duration = ⟨1000000⟩ := rfl
  have hsolve : finding.solveLap.duration = ⟨4000000⟩ := rfl
  have htells (taken : Nat) : Tells (Session.after step s (List.replicate taken .takeLog)) .solved info
      ⟨some [1], some [2]⟩ (if taken = 0 then some "iter 7\n" else none) := by
    obtain ⟨houtcome, htells⟩ :=
      answers_of_latest [.solve panicking p true, .takeLog] finding p true taken
    rw [(houtcome 1).mpr ⟨_, _, hfinds, rfl⟩] at htells
    obtain ⟨found, log, hother, -, htells⟩ := htells
    cases hother.run
    obtain ⟨text, htext, rfl⟩ := hother.log
    cases htext
    rw [hsetup, hsolve] at htells
    exact htells
  exact ⟨htells 0, htells 1⟩

end Conic

end QpReferee

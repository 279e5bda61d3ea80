import QpReferee.Proofs.Adapter.Run
import QpReferee.Proofs.Kkt.Total

/-!
# Panics that escape

The solve, the log and the solution of an engine are guarded: a panic there becomes part of a record.
Its status and its statistics are not guarded, and they are asked for after every solve that completed.
On problems that were built nothing else can stop a call, since the check always gives a verdict.

* `Answers.Escapes` : a panic of the status, or of the statistics after the status.
* `Adapter.returns_record_iff` : **a call of a run returns a record exactly if no panic escapes, and the
  panics that escape are those two.**
* `Adapter.status_panic_escapes` : a run in which one does.
-/

namespace QpReferee

variable {σ T W : Type}

namespace Answers

/-- The solve completed, and the status panics, or answers and the statistics panic. -/
def Escapes (w : Answers T W) (panic : Panic) : Prop :=
  (∃ objective, w.solve = .ok (.ok objective)) ∧
    (w.status = .error panic ∨ (∃ word, w.status = .ok word) ∧ w.info = .error panic)

variable [BinaryScalar T] {w : Answers T W} {s : Settings} {table : W → Status} {p : Problem T}
  {laps : Laps}

theorem exists_failure (hp : p.Built) (w : Answers T W) (s : Settings) (status : Status) :
    ∃ failure, w.failure s p status = .ok failure := by
  obtain ⟨verdict, hverdict⟩ := Kkt.exists_check hp w.candidate s.tier
  unfold failure
  rw [hverdict]
  split_ifs
  · cases verdict with
    | error failure => exact ⟨_, rfl⟩
    | ok residuals => exact ⟨_, rfl⟩
  · exact ⟨_, rfl⟩

theorem outcome_eq_error_iff (hp : p.Built) {panic : Panic} :
    w.outcome s table p laps = .error panic ↔ w.Escapes panic := by
  unfold outcome Escapes
  rcases w.solve with panic' | error | objective
  · simp
  · simp
  · rcases w.status with panic' | word
    · simp [bind, Except.bind]
    · rcases w.info with panic' | info
      · simp [bind, Except.bind]
      · -- only the check is left, and it gives a verdict
        obtain ⟨failure, hfailure⟩ := exists_failure hp w s (table word)
        simp [hfailure, pure, Except.pure]

end Answers

namespace Adapter

variable [BinaryScalar T]

/-- **When a call returns a record.** On problems that were built, a call of a run returns a record
exactly if no panic escapes, and a panic escapes exactly if it is one of the engine's status, or of its
statistics, after a solve that completed. -/
theorem returns_record_iff (a : Adapter σ T W) {calls : List (Call T)}
    (hbuilt : ∀ call ∈ calls, call.problem.Built) {i : Nat} {call : Call T}
    (hcall : calls[i]? = some call) :
    (∀ panic, (a.run calls).2[i]? = some (.error panic) ↔
      (a.answersAt calls i call.problem).Escapes panic) ∧
    ((∃ r, (a.run calls).2[i]? = some (.ok r)) ↔
      ∀ panic, ¬(a.answersAt calls i call.problem).Escapes panic) := by
  have hp : call.problem.Built := hbuilt call (List.mem_of_getElem? hcall)
  have hescapes : ∀ panic, (a.run calls).2[i]? = some (.error panic) ↔
      (a.answersAt calls i call.problem).Escapes panic := by
    intro panic
    rw [outcome_of_run a hcall, Option.some.injEq, Answers.outcome_eq_error_iff hp]
  refine ⟨hescapes, ?_⟩
  constructor
  · rintro ⟨r, hr⟩ panic hpanic
    have herror := (hescapes panic).mpr hpanic
    rw [hr] at herror
    cases herror
  · intro hnone
    have houtcome := outcome_of_run a hcall
    cases h : (a.answersAt calls i call.problem).outcome a.settings a.table call.problem call.laps with
    | ok r => exact ⟨r, h ▸ houtcome⟩
    | error panic => exact absurd ((hescapes panic).mp (h ▸ houtcome)) (hnone panic)

/-- An adapter whose engine completes and then panics when it is asked for its status. -/
def speechless : Adapter Unit Float Status :=
  .new "MOCK" (Answers.engine ⟨.ok (.ok 1), .error (.text "boom"), .ok .unknown,
    .ok ⟨some [1], some [2]⟩⟩) id .default ()

/-- The panic of the status is what the caller gets. -/
theorem speechless_escapes : (speechless.run [squareCall]).2[0]? = some (.error (.text "boom")) := by
  have hbuilt : ∀ call ∈ [squareCall], call.problem.Built := by
    intro call hcall
    rw [List.mem_singleton.mp hcall]
    exact squareCall_built
  have hescapes := (returns_record_iff speechless hbuilt (i := 0) rfl).1 (.text "boom")
  exact hescapes.mpr ⟨⟨1, rfl⟩, .inl rfl⟩

/-- A run on a built problem in which a call returns no record. -/
theorem status_panic_escapes : (∀ call ∈ [squareCall], call.problem.Built) ∧
    ¬∀ outcome ∈ (speechless.run [squareCall]).2, ∃ r, outcome = .ok r := by
  refine ⟨fun call hcall => ?_, fun hall => ?_⟩
  · rw [List.mem_singleton.mp hcall]
    exact squareCall_built
  · obtain ⟨r, hr⟩ := hall (.error (.text "boom")) List.mem_cons_self
    cases hr

end Adapter

end QpReferee

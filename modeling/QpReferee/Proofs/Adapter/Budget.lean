import QpReferee.Proofs.Adapter.Records
import QpReferee.Proofs.Kkt.Accepted
import QpReferee.Proofs.Timing.Seconds

/-!
# The time limit

A call whose run time exceeds the limit has the status of the time limit. So any other call was within the
limit, if its run time is a number. A measured time is one; what an engine tells need not be, and a sum
that is no number exceeds no limit.

* `Settings.isLate_measured` : when a measured time exceeds the limit.
* `Answers.Timeless` : the engine told two times that have no sum.
* `Adapter.within_limit_iff` : **the run time of a call with another status.**
* `Adapter.timeless_is_optimal` : a call with a run time that is no number.
-/

namespace QpReferee

variable {σ T W : Type}

/-- The two times that an engine told have no sum: one is no number, or they are infinite and opposite. -/
def EngineInfo.Timeless (info : EngineInfo) : Prop :=
  ∃ setup solve, info.setupTime = some setup ∧ info.solveTime = some solve ∧
    (setup.isNaN = true ∨ solve.isNaN = true ∨
      setup.isInf = true ∧ solve.isInf = true ∧ (setup == solve) = false)

theorem EngineInfo.isNaN_spent_iff (info : EngineInfo) (laps : Laps) :
    (info.spent laps).isNaN = true ↔ info.Timeless := by
  have hmeasured : ∀ d : Duration, ¬d.seconds.isNaN = true := by
    intro d h
    cases h.symm.trans d.isNaN_seconds
  obtain ⟨setup, solve, iterations⟩ := info
  rcases setup with _ | setup
  · apply iff_of_false (hmeasured _)
    rintro ⟨_, _, hsetup, -⟩
    cases hsetup
  rcases solve with _ | solve
  · apply iff_of_false (hmeasured _)
    rintro ⟨_, _, -, hsolve, -⟩
    cases hsolve
  · show (setup + solve).isNaN = true ↔ _
    rw [Double.isNaN_add_iff]
    constructor
    · intro h
      exact ⟨setup, solve, rfl, rfl, h⟩
    · rintro ⟨_, _, hsetup, hsolve, h⟩
      cases hsetup
      cases hsolve
      exact h

theorem Settings.isNaN_limit {s : Settings} {limit : Float} (hvalid : s.validate = .ok ())
    (hlimit : s.timeLimit = some limit) : limit.isNaN = false := by
  have hlegal : Settings.legalTimeLimit limit = true := by
    unfold Settings.validate at hvalid
    rw [hlimit] at hvalid
    by_contra h
    cases (if_neg h).symm.trans hvalid
  unfold Settings.legalTimeLimit at hlegal
  rw [Bool.and_eq_true, Bool.not_eq_true'] at hlegal
  exact hlegal.1

/-- A measured time that exceeds the limit by more than a small part of it is late, and one that falls short of it by
as much is not. -/
theorem Settings.isLate_measured {s : Settings} {limit : Float} (hlimit : s.timeLimit = some limit)
    (hfinite : limit.isFinite = true) {d : Duration} (h : d.IsModerate) :
    (Double.value limit < d.exactSeconds - d.exactSeconds / 2 ^ 51 → s.IsLate d.seconds) ∧
      (d.exactSeconds + d.exactSeconds / 2 ^ 51 ≤ Double.value limit → ¬s.IsLate d.seconds) := by
  obtain ⟨hseconds, hwithin⟩ := d.seconds_within h
  have hbounds := abs_le.mp hwithin
  have hlate : s.IsLate d.seconds ↔ Double.value limit < Double.value d.seconds := by
    rw [← Double.lt_iff_value_lt hfinite hseconds, IsLate, hlimit]
    simp
  rw [hlate]
  constructor
  · intro h
    linarith
  · intro h
    linarith

namespace Adapter

variable [BinaryScalar T] {calls : List (Call T)} {i : Nat} {call : Call T}

/-- **The run time of a call with another status.** Under legal settings with a time limit, a call that
completed and whose status is not the time limit has a run time. It is within the limit, unless the engine
told two times that have no sum; then it is no number, and within no limit. -/
theorem within_limit_iff (a : Adapter σ T W) {limit : Float} (hvalid : a.settings.validate = .ok ())
    (hlimit : a.settings.timeLimit = some limit) (hcall : calls[i]? = some call) {r : Record T}
    (hr : (a.run calls).2[i]? = some (.ok r)) (hcompleted : r.objective.isSome = true)
    (hstatus : r.status ≠ .timeLimit) :
    ∃ seconds info, r.runTime = some seconds ∧
      (a.answersAt calls i call.problem).info = .ok info ∧
      (seconds ≤ limit ↔ ¬info.Timeless) := by
  rw [outcome_of_run a hcall] at hr
  rcases Answers.outcome_eq_ok (Option.some.inj hr) with
    rfl | ⟨objective, word, info, failure, -, -, hinfo, -, rfl⟩
  · cases hcompleted
  rw [Answers.record_eq] at hstatus ⊢
  have hlate : ¬a.settings.IsLate (info.spent call.laps) := fun h => hstatus (finalStatus_of_late h)
  have hwithin : ¬limit < info.spent call.laps := fun h => hlate ⟨limit, hlimit, h⟩
  refine ⟨info.spent call.laps, info, rfl, hinfo, ?_⟩
  rw [Double.le_iff_of_not_lt (Settings.isNaN_limit hvalid hlimit) hwithin, ← Bool.not_eq_true,
    info.isNaN_spent_iff]

/-- An adapter with a time limit of three seconds, whose engine finds the solution and tells two times. -/
def timed (setup solve : Float) : Adapter Unit Float Status :=
  .new "MOCK" (Answers.engine ⟨.ok (.ok 1), .ok .optimal, .ok ⟨some setup, some solve, none⟩,
    .ok ⟨some [1], some [2]⟩⟩) id ⟨none, some 3, none, .always⟩ ()

theorem timed_returns {setup solve : Float} (hwithin : ¬3 < setup + solve) :
    ((timed setup solve).run [squareCall]).2[0]? =
      some (.ok ⟨.optimal, some 1, some [1], some [2], some (setup + solve), none⟩) := by
  have haccepted : ((Kkt.check squareCall.problem ⟨some [1], some [2]⟩ .standard).toOption.bind
      Except.toOption).any (fun _ => true) = true := by
    decide +kernel
  obtain ⟨residuals, hcheck, -⟩ := Kkt.exists_accepted haccepted
  obtain ⟨r, hreturned, hfailed | ⟨objective, failed, hsolve, hfailed, rfl⟩⟩ := exists_record (timed setup solve)
    (show [squareCall][0]? = some squareCall from rfl) squareCall_built rfl rfl rfl
  · exact absurd ⟨1, rfl⟩ hfailed.1
  · cases hsolve
    have hpassed : failed = false := by
      rw [← Bool.not_eq_true, hfailed]
      rintro ⟨-, failure, hrefused⟩
      cases hcheck.symm.trans hrefused
    rw [hreturned, hpassed, Answers.record_eq]
    have hlate : ¬(timed setup solve).settings.IsLate (setup + solve) := by
      rintro ⟨limit, hlimit, hlt⟩
      cases hlimit
      exact hwithin hlt
    have hkept : finalStatus (timed setup solve).settings .optimal false (⟨some [1], some [2]⟩ : Candidate Float)
        (setup + solve) = .optimal :=
      finalStatus_of_kept hlate (by simp [Candidate.Incomplete])
    exact congrArg (fun status => some (Except.ok (Record.mk status _ _ _ _ _))) hkept

/-- Two seconds are within the limit. -/
theorem timed_within : ∃ r seconds, ((timed 1 1).run [squareCall]).2[0]? = some (.ok r) ∧
    r.status = .optimal ∧ r.runTime = some seconds ∧ seconds ≤ 3 := by
  have hreturned : ((timed 1 1).run [squareCall]).2[0]? =
      some (.ok ⟨.optimal, some 1, some [1], some [2], some (1 + 1), none⟩) := timed_returns (by decide)
  obtain ⟨seconds, info, hseconds, hinfo, hwithin⟩ := within_limit_iff (timed 1 1) rfl rfl rfl hreturned rfl
    (by decide)
  refine ⟨_, seconds, hreturned, rfl, hseconds, hwithin.mpr ?_⟩
  cases hinfo
  rintro ⟨setup, solve, hsetup, hsolve, hnosum⟩
  cases hsetup
  cases hsolve
  exact absurd hnosum (by decide)

/-- A setup time that is no number makes the run time no number, and the call counts as optimal. -/
theorem timeless_is_optimal : (timed .nan 1).settings.validate = .ok () ∧
    ∃ r seconds, ((timed .nan 1).run [squareCall]).2[0]? = some (.ok r) ∧ r.objective = some 1 ∧
      r.status = .optimal ∧ r.runTime = some seconds ∧ ¬seconds ≤ 3 :=
  ⟨rfl, _, _, timed_returns (by decide), rfl, rfl, rfl, by decide⟩

end Adapter

end QpReferee

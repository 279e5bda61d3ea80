import QpReferee.Proofs.Adapter.Run

/-!
# Claimed solutions are verified

The status of a record passes through the table, the check that the settings ask for, the demand that
both vectors are there, and the time limit. None of them can let a claim through that the check did not
accept: either policy checks an optimal status, and every other step only replaces it.

* `Answers.verified_of_outcome` : an optimal record of one call was checked.
* `Adapter.optimal_is_verified` : **no record of a run claims a solution that the check did not accept.**
-/

namespace QpReferee

variable {σ T W : Type}

theorem status_of_optimal {s : Settings} {status : Status} {failed : Bool} {c : Candidate T}
    {runTime : Float} (h : (finalStatus s status failed c runTime).isOptimal = true) :
    finalStatus s status failed c runTime = status ∧ failed = false ∧
      ∃ x y, c = ⟨some x, some y⟩ := by
  obtain ⟨x, y⟩ := c
  unfold finalStatus at h ⊢
  split_ifs at h ⊢ with hlimit hfailed
  · cases h
  · cases h
  · rw [Bool.or_eq_true, Bool.or_eq_true, not_or, not_or, Bool.not_eq_true] at hfailed
    obtain ⟨⟨hfailed, hx⟩, hy⟩ := hfailed
    refine ⟨rfl, hfailed, ?_⟩
    cases x with
    | none => exact absurd rfl hx
    | some x =>
      cases y with
      | none => exact absurd rfl hy
      | some y => exact ⟨x, y, rfl⟩

theorem needsCheck_of_optimal {s : Settings} {status : Status} (h : status.isOptimal = true) :
    s.needsCheck status = true := by
  unfold Settings.needsCheck
  cases s.policy with
  | always => rfl
  | solutionPresent => exact h

namespace Answers

variable [BinaryScalar T] {w : Answers T W} {s : Settings} {table : W → Status} {p : Problem T}
  {laps : Laps} {r : Record T}

theorem check_of_failure {status : Status} {failure : Option (Failure T)}
    (h : w.failure s p status = .ok failure) (hneeded : s.needsCheck status = true)
    (hnone : failure.isSome = false) :
    ∃ residuals, Kkt.check p w.candidate s.tier = .ok (.ok residuals) := by
  unfold Answers.failure at h
  rw [if_pos hneeded] at h
  split at h
  · cases h
  · cases h
    cases hnone
  · rename_i residuals hcheck
    exact ⟨residuals, hcheck⟩

theorem verified_of_outcome (h : w.outcome s table p laps = .ok r) (hoptimal : r.status.isOptimal = true) :
    ∃ x y residuals word, r.x = some x ∧ r.y = some y ∧
      Kkt.check p ⟨some x, some y⟩ s.tier = .ok (.ok residuals) ∧
      w.status = .ok word ∧ r.status = table word := by
  rcases outcome_eq_ok h with rfl | ⟨objective, word, info, failure, -, hword, -, hfailure, rfl⟩
  · cases hoptimal
  · obtain ⟨hstatus, hnone, x, y, hcandidate⟩ := status_of_optimal hoptimal
    have hclaimed : (table word).isOptimal = true := hstatus ▸ hoptimal
    obtain ⟨residuals, hcheck⟩ := check_of_failure hfailure (needsCheck_of_optimal hclaimed) hnone
    rw [hcandidate] at hcheck
    exact ⟨x, y, residuals, word, congrArg Candidate.x hcandidate, congrArg Candidate.y hcandidate,
      hcheck, hword, hstatus⟩

end Answers

namespace Adapter

variable [BinaryScalar T]

/-- **No record claims a solution that the check did not accept.** Whatever the engine answers: the
vectors of a record whose status is optimal, inaccurately or not, are there and pass the check of the
problem of that call at the tier of the settings, and the status is that of the engine's word. -/
theorem optimal_is_verified (a : Adapter σ T W) {calls : List (Call T)} {i : Nat} {r : Record T}
    (hreturned : (a.run calls).2[i]? = some (.ok r))
    (hoptimal : r.status = .optimal ∨ r.status = .optimalInaccurate) :
    ∃ call x y residuals word, calls[i]? = some call ∧ r.x = some x ∧ r.y = some y ∧
      Kkt.check call.problem ⟨some x, some y⟩ a.settings.tier = .ok (.ok residuals) ∧
      (a.answersAt calls i call.problem).status = .ok word ∧ r.status = a.table word := by
  have hclaims : r.status.isOptimal = true := by
    rcases hoptimal with h | h
    · rw [h]
      rfl
    · rw [h]
      rfl
  cases hcall : calls[i]? with
  | none =>
    rw [run_getElem?, hcall] at hreturned
    cases hreturned
  | some call =>
    rw [outcome_of_run a hcall] at hreturned
    obtain ⟨x, y, residuals, word, hx, hy, hcheck, hword, hstatus⟩ :=
      Answers.verified_of_outcome (Option.some.inj hreturned) hclaims
    exact ⟨call, x, y, residuals, word, rfl, hx, hy, hcheck, hword, hstatus⟩

/-- An adapter whose engine is right about the problem, and panics when it is asked for its log. -/
def knowing : Adapter Unit Float Status :=
  .new "MOCK" (Answers.engine ⟨.ok (.ok 1), .ok .optimal, .ok .unknown, .ok ⟨some [1], some [2]⟩⟩) id
    ⟨some true, none, some true, .solutionPresent⟩ ()

/-- Its second record claims a solution, which passed the check. -/
theorem knowing_is_verified : ∃ r x y residuals,
    (knowing.run [squareCall, squareCall]).2[1]? = some (.ok r) ∧ r.status = .optimal ∧
      r.x = some x ∧ r.y = some y ∧
      Kkt.check squareCall.problem ⟨some x, some y⟩ .high = .ok (.ok residuals) := by
  have hrun : ((knowing.run [squareCall, squareCall]).2[1]?.bind Except.toOption).any
      (fun r => r.status = .optimal) = true := by
    decide +kernel
  obtain ⟨r, hreturned, htest⟩ := exists_returned hrun
  have hstatus : r.status = .optimal := of_decide_eq_true htest
  obtain ⟨call, x, y, residuals, -, hcall, hx, hy, hcheck, -, -⟩ :=
    optimal_is_verified knowing hreturned (.inl hstatus)
  rw [← Option.some.inj hcall] at hcheck
  exact ⟨r, x, y, residuals, hreturned, hstatus, hx, hy, hcheck⟩

end Adapter

end QpReferee

import Mathlib.Data.List.Induction

/-!
# Sessions

A session is a list of steps, each made in the state that the steps before it left, and each replied to.

* `latest` : the latest value that some steps give.
* `Session.after`, `Session.replies` : the state after some steps, and what they reply.
* `Session.replies_getElem?` : the reply to the step at an index.
* `Session.after_induction` : a relation of steps and states that each step keeps holds after every session.
-/

namespace QpReferee

/-! ## The latest value -/

/-- The latest value that some steps give, if any of them gives one. -/
def latest {α β : Type} (given : α → Option β) (steps : List α) : Option β :=
  (steps.filterMap given).getLast?

section

variable {α β : Type} {given : α → Option β} {steps : List α}

theorem latest_concat (a : α) : latest given (steps ++ [a]) = (given a).or (latest given steps) := by
  unfold latest
  rw [List.filterMap_append]
  cases h : given a with
  | none => rw [List.filterMap_cons_none h, List.filterMap_nil, List.append_nil, Option.none_or]
  | some b => rw [List.filterMap_cons_some h, List.filterMap_nil, List.getLast?_concat, Option.some_or]

theorem exists_of_latest {b : β} (h : latest given steps = some b) : ∃ a ∈ steps, given a = some b :=
  List.mem_filterMap.mp (List.mem_of_getLast? h)

end

/-! ## Steps -/

namespace Session

variable {σ α ρ : Type} (step : σ → α → σ × ρ)

def after (s : σ) (steps : List α) : σ := steps.foldl (fun s a => (step s a).1) s

def replies (s : σ) : List α → List ρ
  | [] => []
  | a :: steps => (step s a).2 :: replies (step s a).1 steps

theorem after_append (s : σ) (steps more : List α) :
    after step s (steps ++ more) = after step (after step s steps) more := List.foldl_append

@[simp] theorem after_concat (s : σ) (steps : List α) (a : α) :
    after step s (steps ++ [a]) = (step (after step s steps) a).1 := after_append step s steps [a]

theorem replies_getElem? (s : σ) (steps : List α) (i : Nat) :
    (replies step s steps)[i]? = steps[i]?.map fun a => (step (after step s (steps.take i)) a).2 := by
  induction steps generalizing s i with
  | nil => simp [replies]
  | cons a steps ih =>
    cases i with
    | zero => rfl
    | succ i => exact ih (step s a).1 i

/-- What holds before the first step, and is kept by every step after those that were made, holds after
every session. -/
theorem after_induction {step : σ → α → σ × ρ} {s : σ} {R : List α → σ → Prop} (hstart : R [] s)
    (hstep : ∀ steps s a, R steps s → R (steps ++ [a]) (step s a).1) (steps : List α) :
    R steps (after step s steps) := by
  induction steps using List.reverseRecOn with
  | nil => exact hstart
  | append_singleton steps a ih =>
    rw [after_concat]
    exact hstep _ _ a ih

end Session

end QpReferee

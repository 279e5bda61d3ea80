import Mathlib.Data.List.Basic
import QpReferee.Fault

/-!
# Checked computations that succeed

* `Checked.bind_eq_ok`, `demand_eq_ok` : what a computation that succeeds has passed on its way.
* `Checked.bind_stops`, `demands_stop` : what makes a computation stop.
* `Checked.foldlM_eq_ok`, `Checked.mapM_eq_ok` : a loop whose steps all succeed has the plain loop's
  result.
-/

namespace QpReferee

variable {α β σ : Type}

namespace Checked

@[simp] theorem ok_bind {ε : Type} (a : α) (f : α → Except ε β) : (Except.ok a >>= f) = f a := rfl

theorem bind_eq_ok {ε : Type} {x : Except ε α} {f : α → Except ε β} {b : β} :
    (x >>= f) = .ok b ↔ ∃ a, x = .ok a ∧ f a = .ok b := by
  cases x with
  | error e => simp [bind, Except.bind]
  | ok a => simp

theorem bind_stops {ε : Type} {x : Except ε α} {f : α → Except ε β} {a : α} {fault : ε}
    (hx : x = .error fault ∨ x = .ok a) (h : f a = .error fault) : (x >>= f) = .error fault := by
  rcases hx with rfl | rfl
  · rfl
  · exact h

/-- A loop that keeps an invariant under which each step succeeds. -/
theorem foldlM_eq_ok (I : σ → Prop) {f : σ → α → Checked σ} {g : σ → α → σ} (l : List α)
    (hstep : ∀ s, I s → ∀ a ∈ l, f s a = .ok (g s a) ∧ I (g s a)) {s : σ} (hs : I s) :
    l.foldlM f s = .ok (l.foldl g s) ∧ I (l.foldl g s) := by
  induction l generalizing s with
  | nil => exact ⟨rfl, hs⟩
  | cons a l ih =>
    obtain ⟨hrun, hkeep⟩ := hstep s hs a List.mem_cons_self
    rw [List.foldlM_cons, hrun, ok_bind, List.foldl_cons]
    exact ih (fun s hs a ha => hstep s hs a (List.mem_cons_of_mem _ ha)) hkeep

theorem mapM_eq_ok {f : α → Checked β} {g : α → β} (l : List α) (h : ∀ a ∈ l, f a = .ok (g a)) :
    l.mapM f = .ok (l.map g) := by
  induction l with
  | nil => rfl
  | cons a l ih =>
    rw [List.mapM_cons, h a List.mem_cons_self, ih fun b hb => h b (List.mem_cons_of_mem _ hb)]
    rfl

end Checked

theorem demand_eq_ok {p : Prop} [Decidable p] {fault : Fault} : demand p fault = .ok () ↔ p := by
  unfold demand
  split_ifs with h <;> simp [h]

theorem demand_of {p : Prop} [Decidable p] (h : p) (fault : Fault) : demand p fault = .ok () :=
  demand_eq_ok.mpr h

theorem demand_of_not {p : Prop} [Decidable p] (h : ¬p) (fault : Fault) : demand p fault = .error fault :=
  if_neg h

theorem demands_stop {p q : Prop} [Decidable p] [Decidable q] (h : ¬p ∨ ¬q) (fault : Fault)
    (rest : Checked α) : (do demand p fault; demand q fault; rest) = .error fault := by
  by_cases hp : p
  · rw [demand_of hp, Checked.ok_bind, demand_of_not (h.resolve_left (not_not.mpr hp))]
    rfl
  · rw [demand_of_not hp]
    rfl

end QpReferee

import Mathlib.Data.List.Basic

/-!
# Conditions in order

A check that goes through some conditions in order and stops at the first that does not hold has one
meaning, whatever the conditions are about.

* `FirstBroken` : a failure is that of the first condition that does not hold.
* `Judges` : an outcome is the result if all conditions hold, and otherwise the first failure.
* `Judges.cons`, `judges_of_not` : a check is compared with its conditions one at a time.
* `Judges.eq_ok_iff`, `Judges.eq_error_iff` : what each outcome says.
* `Stricter`, `Judges.no_later` : a check whose conditions are stricter fails no later.
* `Concludes` : a computation that could stop reaches an outcome that judges its conditions; `Concludes.guard`
  and `Concludes.avoid` go past one early return, `Concludes.bind` past another check.
-/

namespace QpReferee

variable {F R : Type}

/-- A condition, and the failure that is answered if it does not hold. -/
structure Condition (F : Type) where
  holds : Prop
  failure : F

/-- The failure is that of the first condition that does not hold. -/
def FirstBroken (l : List (Condition F)) (failure : F) : Prop :=
  ∃ before c after, l = before ++ c :: after ∧ (∀ d ∈ before, d.holds) ∧ ¬c.holds ∧
    c.failure = failure

/-- The outcome is the result if all conditions hold, and otherwise the first failure. -/
def Judges (l : List (Condition F)) (result : R) (outcome : Except F R) : Prop :=
  ((∀ c ∈ l, c.holds) ∧ outcome = .ok result) ∨ ∃ f, FirstBroken l f ∧ outcome = .error f

variable {l : List (Condition F)} {c : Condition F} {result : R} {outcome : Except F R}

theorem judges_nil : Judges ([] : List (Condition F)) result (.ok result) := .inl ⟨by simp, rfl⟩

theorem Judges.cons (h : c.holds) (hl : Judges l result outcome) : Judges (c :: l) result outcome := by
  rcases hl with ⟨hall, hok⟩ | ⟨f, ⟨before, d, after, rfl, hbefore, hd, hf⟩, herror⟩
  · exact .inl ⟨List.forall_mem_cons.mpr ⟨h, hall⟩, hok⟩
  · exact .inr ⟨f, ⟨c :: before, d, after, rfl, List.forall_mem_cons.mpr ⟨h, hbefore⟩, hd, hf⟩, herror⟩

theorem judges_of_not (h : ¬c.holds) : Judges (c :: l) result (.error c.failure) :=
  .inr ⟨_, ⟨[], c, l, rfl, by simp, h, rfl⟩, rfl⟩

theorem firstBroken_cons {f : F} : FirstBroken (c :: l) f ↔
    ¬c.holds ∧ c.failure = f ∨ c.holds ∧ FirstBroken l f := by
  constructor
  · rintro ⟨before, d, after, heq, hbefore, hd, hf⟩
    cases before with
    | nil =>
      obtain ⟨rfl, rfl⟩ := List.cons.inj heq
      exact .inl ⟨hd, hf⟩
    | cons e before =>
      obtain ⟨rfl, rfl⟩ := List.cons.inj heq
      obtain ⟨hc, hbefore⟩ := List.forall_mem_cons.mp hbefore
      exact .inr ⟨hc, before, d, after, rfl, hbefore, hd, hf⟩
  · rintro (⟨hc, hf⟩ | ⟨hc, before, d, after, rfl, hbefore, hd, hf⟩)
    · exact ⟨[], c, l, rfl, by simp, hc, hf⟩
    · exact ⟨c :: before, d, after, rfl, List.forall_mem_cons.mpr ⟨hc, hbefore⟩, hd, hf⟩

theorem not_firstBroken_nil {f : F} : ¬FirstBroken [] f := by
  rintro ⟨before, c, after, heq, -⟩
  cases before <;> cases heq

theorem FirstBroken.exists_mem {f : F} (h : FirstBroken l f) : ∃ c ∈ l, c.failure = f := by
  obtain ⟨before, c, after, rfl, -, -, hf⟩ := h
  exact ⟨c, List.mem_append_right _ List.mem_cons_self, hf⟩

theorem FirstBroken.unique {f g : F} (hf : FirstBroken l f) (hg : FirstBroken l g) : f = g := by
  induction l with
  | nil => exact absurd hf not_firstBroken_nil
  | cons c l ih =>
    rcases firstBroken_cons.mp hf with ⟨hc, rfl⟩ | ⟨hc, hf⟩
    · rcases firstBroken_cons.mp hg with ⟨-, rfl⟩ | ⟨hc', -⟩
      · rfl
      · exact absurd hc' hc
    · rcases firstBroken_cons.mp hg with ⟨hc', -⟩ | ⟨-, hg⟩
      · exact absurd hc hc'
      · exact ih hf hg

theorem FirstBroken.not_all {f : F} (h : FirstBroken l f) : ¬∀ c ∈ l, c.holds := by
  obtain ⟨before, c, after, rfl, -, hc, -⟩ := h
  exact fun hall => hc (hall c (List.mem_append_right _ List.mem_cons_self))

theorem Judges.eq_ok_iff (h : Judges l result outcome) {r : R} :
    outcome = .ok r ↔ (∀ c ∈ l, c.holds) ∧ r = result := by
  rcases h with ⟨hall, rfl⟩ | ⟨f, hf, rfl⟩
  · rw [Except.ok.injEq, eq_comm]
    exact ⟨fun hr => ⟨hall, hr⟩, fun hr => hr.2⟩
  · exact ⟨fun hr => (by cases hr), fun hr => absurd hr.1 hf.not_all⟩

theorem Judges.eq_error_iff (h : Judges l result outcome) {f : F} :
    outcome = .error f ↔ FirstBroken l f := by
  rcases h with ⟨hall, rfl⟩ | ⟨g, hg, rfl⟩
  · exact ⟨fun hf => (by cases hf), fun hf => absurd hall hf.not_all⟩
  · rw [Except.error.injEq]
    exact ⟨fun heq => heq ▸ hg, fun hf => hg.unique hf⟩

/-! ## Stricter conditions -/

/-- Conditions in the same places, each of which implies the one in its place and fails at the same stage. -/
def Stricter (stage : F → ℕ) (l l' : List (Condition F)) : Prop :=
  List.Forall₂ (fun c d => (c.holds → d.holds) ∧ stage c.failure = stage d.failure) l l'

variable {stage : F → ℕ} {l' : List (Condition F)}

theorem FirstBroken.no_later (hstricter : Stricter stage l l')
    (hstages : l.Pairwise fun c d => stage c.failure ≤ stage d.failure) {f : F} (hf : FirstBroken l' f) :
    ∃ g, FirstBroken l g ∧ stage g ≤ stage f := by
  induction hstricter with
  | nil => exact absurd hf not_firstBroken_nil
  | @cons c d l l' hcd _ ih =>
    obtain ⟨hfirst, hstages⟩ := List.pairwise_cons.mp hstages
    rcases firstBroken_cons.mp hf with ⟨hd, rfl⟩ | ⟨-, hf⟩
    · exact ⟨c.failure, firstBroken_cons.mpr (.inl ⟨fun hc => hd (hcd.1 hc), rfl⟩), Nat.le_of_eq hcd.2⟩
    · obtain ⟨g, hg, hle⟩ := ih hstages hf
      by_cases hc : c.holds
      · exact ⟨g, firstBroken_cons.mpr (.inr ⟨hc, hg⟩), hle⟩
      -- the stricter check ends here already, before the stage of its next failure
      · obtain ⟨e, he, rfl⟩ := hg.exists_mem
        exact ⟨c.failure, firstBroken_cons.mpr (.inl ⟨hc, rfl⟩), Nat.le_trans (hfirst e he) hle⟩

/-- A stricter check with the same result fails no later than the other one; so what it accepts, the other
one accepts. -/
theorem Judges.no_later {outcome' : Except F R} (h : Judges l result outcome)
    (h' : Judges l' result outcome') (hstricter : Stricter stage l l')
    (hstages : l.Pairwise fun c d => stage c.failure ≤ stage d.failure) :
    (∀ r, outcome = .ok r → outcome' = .ok r) ∧
      ∀ f, outcome' = .error f → ∃ g, outcome = .error g ∧ stage g ≤ stage f := by
  have hfailures : ∀ f, outcome' = .error f → ∃ g, outcome = .error g ∧ stage g ≤ stage f := by
    intro f hf
    obtain ⟨g, hg, hle⟩ := (h'.eq_error_iff.mp hf).no_later hstricter hstages
    exact ⟨g, h.eq_error_iff.mpr hg, hle⟩
  refine ⟨fun r hr => ?_, hfailures⟩
  cases outcome' with
  | error f =>
    obtain ⟨g, hg, -⟩ := hfailures f rfl
    cases hr.symm.trans hg
  | ok r' => rw [(h'.eq_ok_iff.mp rfl).2, (h.eq_ok_iff.mp hr).2]

/-! ## Conditions of another check -/

/-- The same condition, whose failure is reported in other words. -/
def Condition.rename {G : Type} (word : F → G) (c : Condition F) : Condition G := ⟨c.holds, word c.failure⟩

theorem holds_rename {G : Type} {word : F → G} :
    (∀ c ∈ l.map (Condition.rename word), c.holds) ↔ ∀ c ∈ l, c.holds := by
  simp [Condition.rename]

theorem firstBroken_rename {G : Type} {word : F → G} {g : G} :
    FirstBroken (l.map (Condition.rename word)) g ↔ ∃ f, FirstBroken l f ∧ word f = g := by
  induction l with
  | nil => simp [not_firstBroken_nil]
  | cons c l ih =>
    simp only [List.map_cons, firstBroken_cons, ih, Condition.rename]
    constructor
    · rintro (⟨hc, rfl⟩ | ⟨hc, f, hf, rfl⟩)
      · exact ⟨c.failure, .inl ⟨hc, rfl⟩, rfl⟩
      · exact ⟨f, .inr ⟨hc, hf⟩, rfl⟩
    · rintro ⟨f, ⟨hc, rfl⟩ | ⟨hc, hf⟩, rfl⟩
      · exact .inl ⟨hc, rfl⟩
      · exact .inr ⟨hc, f, hf, rfl⟩

theorem firstBroken_append {l' : List (Condition F)} {f : F} :
    FirstBroken (l ++ l') f ↔ FirstBroken l f ∨ (∀ c ∈ l, c.holds) ∧ FirstBroken l' f := by
  induction l with
  | nil => simp [not_firstBroken_nil]
  | cons c l ih =>
    simp only [List.cons_append, firstBroken_cons, ih, List.forall_mem_cons]
    tauto

/-! ## Checks that could stop -/

/-- The computation reaches an outcome, and the outcome judges the conditions. -/
def Concludes {ε : Type} (run : Except ε (Except F R)) (l : List (Condition F)) (result : R) : Prop :=
  ∃ outcome, run = .ok outcome ∧ Judges l result outcome

variable {ε : Type} {run : Except ε (Except F R)} {p holds : Prop} [Decidable p] {failure : F}

theorem Concludes.eq_ok_iff (h : Concludes run l result) {r : R} :
    run = .ok (.ok r) ↔ (∀ c ∈ l, c.holds) ∧ r = result := by
  obtain ⟨outcome, rfl, hjudges⟩ := h
  rw [Except.ok.injEq, hjudges.eq_ok_iff]

theorem Concludes.eq_error_iff (h : Concludes run l result) {f : F} :
    run = .ok (.error f) ↔ FirstBroken l f := by
  obtain ⟨outcome, rfl, hjudges⟩ := h
  rw [Except.ok.injEq, hjudges.eq_error_iff]

theorem Concludes.map {S : Type} (h : Concludes run l result) (g : R → S) :
    Concludes (run.map (Except.map g)) l (g result) := by
  obtain ⟨outcome, rfl, hjudges⟩ := h
  refine ⟨outcome.map g, rfl, ?_⟩
  rcases hjudges with ⟨hall, rfl⟩ | ⟨f, hf, rfl⟩
  · exact .inl ⟨hall, rfl⟩
  · exact .inr ⟨f, hf, rfl⟩

/-- A check that begins with another one, and reports a failure of that one in its own words. -/
theorem Concludes.bind {G : Type} {inner : Except ε (Except F Unit)} {word : F → G}
    {rest : Except F Unit → Except ε (Except G R)} {l' : List (Condition G)} (hinner : Concludes inner l ())
    (hword : ∀ f, rest (.error f) = .ok (.error (word f)))
    (h : (∀ c ∈ l, c.holds) → Concludes (rest (.ok ())) l' result) :
    Concludes (inner >>= rest) (l.map (Condition.rename word) ++ l') result := by
  obtain ⟨verdict, rfl, ⟨hall, rfl⟩ | ⟨f, hf, rfl⟩⟩ := hinner
  · obtain ⟨outcome, hrun, ⟨hall', hok⟩ | ⟨g, hg, herror⟩⟩ := h hall
    · refine ⟨outcome, hrun, .inl ⟨?_, hok⟩⟩
      exact List.forall_mem_append.mpr ⟨holds_rename.mpr hall, hall'⟩
    · refine ⟨outcome, hrun, .inr ⟨g, ?_, herror⟩⟩
      exact firstBroken_append.mpr (.inr ⟨holds_rename.mpr hall, hg⟩)
  · refine ⟨_, hword f, .inr ⟨word f, ?_, rfl⟩⟩
    exact firstBroken_append.mpr (.inl (firstBroken_rename.mpr ⟨f, hf, rfl⟩))

theorem concludes_done : Concludes (pure (.ok result) : Except ε (Except F R)) [] result :=
  ⟨_, rfl, judges_nil⟩

theorem Concludes.guard (hp : p ↔ holds) (h : holds → Concludes run l result) :
    Concludes (if p then run else pure (.error failure)) (⟨holds, failure⟩ :: l) result := by
  by_cases hc : holds
  · obtain ⟨outcome, hrun, hjudges⟩ := h hc
    exact ⟨outcome, (if_pos (hp.mpr hc)).trans hrun, hjudges.cons hc⟩
  · exact ⟨_, if_neg (hc ∘ hp.mp), judges_of_not (c := ⟨holds, failure⟩) hc⟩

theorem Concludes.avoid (hp : p ↔ ¬holds) (h : holds → Concludes run l result) :
    Concludes (if p then pure (.error failure) else run) (⟨holds, failure⟩ :: l) result := by
  by_cases hc : holds
  · obtain ⟨outcome, hrun, hjudges⟩ := h hc
    exact ⟨outcome, (if_neg fun hbroken => hp.mp hbroken hc).trans hrun, hjudges.cons hc⟩
  · exact ⟨_, if_pos (hp.mpr hc), judges_of_not (c := ⟨holds, failure⟩) hc⟩

end QpReferee

import QpReferee.Proofs.Session
import QpReferee.Settings.Builder

/-!
# Building settings in many steps

A builder is given values, checked and asked for settings in any order and any number of times. It remembers the
latest value of each field and nothing else, and checking and building leave it as it is. So what it answers
depends on the latest values alone, and a limit that was refused is made good by a later one.

* `Builder.Step`, `Builder.step` : what can be done with a builder, and what it replies.
* `Builder.remembers` : **a builder remembers the latest value of each field.**
* `Builder.replies_by_latest` : **what is replied to every check and every build.**
-/

namespace QpReferee

theorem legalTimeLimit_iff {limit : Float} :
    Settings.legalTimeLimit limit = true ↔ ¬(limit.isNaN = true ∨ limit ≤ 0.0) := by
  unfold Settings.legalTimeLimit
  rw [Bool.and_eq_true, Bool.not_eq_true', Bool.not_eq_true', Bool.eq_false_iff, decide_eq_false_iff_not, not_or]

namespace Builder

/-- What can be done with a builder. -/
inductive Step where
  | verbose (value : Bool)
  | timeLimit (seconds : Float)
  | highAccuracy (value : Bool)
  | policy (policy : Policy)
  | validate
  | build

/-- What a step replies. -/
inductive Reply where
  | done
  | verdict (verdict : Except SettingsError Unit)
  | settings (outcome : Except SettingsError Settings)

def step (b : Builder) : Step → Builder × Reply
  | .verbose value => (b.setVerbose value, .done)
  | .timeLimit seconds => (b.setTimeLimit seconds, .done)
  | .highAccuracy value => (b.setHighAccuracy value, .done)
  | .policy policy => (b.setPolicy policy, .done)
  | .validate => (b, .verdict b.validate)
  | .build => (b, .settings b.build)

namespace Step

/-- The value that a step gives to a field, for each of the fields. -/
def verbose? : Step → Option Bool
  | .verbose value => some value
  | _ => none

@[inherit_doc verbose?]
def timeLimit? : Step → Option Float
  | .timeLimit seconds => some seconds
  | _ => none

@[inherit_doc verbose?]
def highAccuracy? : Step → Option Bool
  | .highAccuracy value => some value
  | _ => none

@[inherit_doc verbose?]
def policy? : Step → Option Policy
  | .policy value => some value
  | _ => none

end Step

variable (steps : List Step)

/-- The settings that some steps describe: the latest value given to each field, and the default of a field that
is given none. -/
def described : Settings where
  verbose := latest Step.verbose? steps
  timeLimit := latest Step.timeLimit? steps
  highAccuracy := latest Step.highAccuracy? steps
  policy := (latest Step.policy? steps).getD .always

/-- The latest time limit is no number, or not above zero. -/
def Refused : Prop := ∃ limit ∈ latest Step.timeLimit? steps, limit.isNaN = true ∨ limit ≤ 0.0

/-- A builder with the latest value of each field. -/
def given : Builder where
  verbose := (latest Step.verbose? steps).map some
  timeLimit := (latest Step.timeLimit? steps).map some
  highAccuracy := (latest Step.highAccuracy? steps).map some
  policy := latest Step.policy? steps

/-- **A builder remembers the latest value of each field.** -/
theorem remembers : Session.after step .empty steps = given steps := by
  suffices h : ∀ steps a, given (steps ++ [a]) = (step (given steps) a).1 from
    Session.after_induction (R := fun steps b => b = given steps) rfl
      (fun steps b a hb => by rw [hb, h]) steps
  intro steps a
  unfold given
  simp only [latest_concat]
  cases a <;> rfl

theorem settings_given : (given steps).settings = described steps := by
  unfold settings given described Settings.default
  cases latest Step.verbose? steps <;> cases latest Step.timeLimit? steps <;>
    cases latest Step.highAccuracy? steps <;> rfl

theorem validate_given : (given steps).validate = (described steps).validate := by
  unfold validate given described Settings.validate
  cases latest Step.timeLimit? steps <;> rfl

variable {steps}

theorem validate_described : (described steps).validate = .ok () ↔ ¬Refused steps := by
  unfold Settings.validate described Refused Settings.validateTimeLimit
  dsimp only
  cases latest Step.timeLimit? steps with
  | none => exact iff_of_true rfl nofun
  | some limit =>
    dsimp only
    by_cases hlegal : Settings.legalTimeLimit limit = true
    · rw [if_pos hlegal]
      refine iff_of_true rfl ?_
      rintro ⟨_, ⟨⟩, hbad⟩
      exact legalTimeLimit_iff.mp hlegal hbad
    · rw [if_neg hlegal]
      refine iff_of_false (fun h => by cases h) (not_not.mpr ⟨limit, rfl, ?_⟩)
      exact not_not.mp (mt legalTimeLimit_iff.mpr hlegal)

theorem validate_refused (h : Refused steps) :
    (described steps).validate = .error (.badFieldValue "time_limit") := by
  obtain ⟨limit, hlimit, hbad⟩ := h
  have hillegal : ¬Settings.legalTimeLimit limit = true := mt legalTimeLimit_iff.mp (not_not.mpr hbad)
  unfold Settings.validate described
  dsimp only
  rw [Option.mem_def.mp hlimit, Settings.validateTimeLimit, if_neg hillegal]

theorem build_given : (given steps).build = (described steps).validate.map fun _ => described steps := by
  unfold build
  rw [validate_given, settings_given]
  cases (described steps).validate <;> rfl

theorem given_append_checks {checks : List Step} (h : ∀ check ∈ checks, check = .validate ∨ check = .build) :
    given (steps ++ checks) = given steps := by
  induction checks using List.reverseRecOn with
  | nil => rw [List.append_nil]
  | append_singleton checks check ih =>
    rw [List.forall_mem_append, List.forall_mem_singleton] at h
    obtain ⟨hchecks, hcheck⟩ := h
    rw [← List.append_assoc, ← ih hchecks]
    unfold given
    simp only [latest_concat]
    rcases hcheck with rfl | rfl <;> rfl

theorem build_legal (b : Builder) {limit : Float} (h : ¬(limit.isNaN = true ∨ limit ≤ 0.0)) :
    (b.setTimeLimit limit).build = .ok { b.settings with timeLimit := some limit } := by
  have hlegal : (b.setTimeLimit limit).validate = .ok () := by
    unfold validate setTimeLimit
    dsimp only
    rw [Settings.validateTimeLimit, if_pos (legalTimeLimit_iff.mpr h)]
  unfold build
  rw [hlegal]
  rfl

/-- **What is replied to every check and every build.** It depends on the latest value of each field before it:
both are refused exactly if the latest time limit is no number or not above zero, and a build that is not refused
gives the latest values, and settings that pass their own check. Steps that give the same latest values leave the same
builder, in whatever order they give them. After any number of refusals a legal limit makes the next build
succeed, with all other fields as they were. -/
theorem replies_by_latest (steps : List Step) (i : Nat) :
    (steps[i]? = some .validate →
      (Refused (steps.take i) → (Session.replies step .empty steps)[i]? =
        some (.verdict (.error (.badFieldValue "time_limit")))) ∧
      (¬Refused (steps.take i) → (Session.replies step .empty steps)[i]? = some (.verdict (.ok ())))) ∧
    (steps[i]? = some .build →
      (Refused (steps.take i) → (Session.replies step .empty steps)[i]? =
        some (.settings (.error (.badFieldValue "time_limit")))) ∧
      (¬Refused (steps.take i) → (Session.replies step .empty steps)[i]? =
        some (.settings (.ok (described (steps.take i)))) ∧ (described (steps.take i)).validate = .ok ())) ∧
    (∀ other : List Step, given other = given (steps.take i) →
      Session.after step .empty other = Session.after step .empty (steps.take i)) ∧
    ∀ checks : List Step, (∀ check ∈ checks, check = .validate ∨ check = .build) →
      ∀ limit : Float, ¬(limit.isNaN = true ∨ limit ≤ 0.0) →
        (Session.after step .empty (steps.take i ++ checks ++ [.timeLimit limit])).build =
          .ok { described (steps.take i) with timeLimit := some limit } := by
  have hbuilder : Session.after step .empty (steps.take i) = given (steps.take i) := remembers _
  refine ⟨fun hcheck => ?_, fun hbuild => ?_, fun other hother => ?_, fun checks hchecks limit hlimit => ?_⟩
  · have hreply : (Session.replies step .empty steps)[i]? =
        some (.verdict (described (steps.take i)).validate) := by
      rw [Session.replies_getElem?, hcheck, hbuilder, ← validate_given]
      rfl
    rw [hreply]
    exact ⟨fun h => by rw [validate_refused h], fun h => by rw [validate_described.mpr h]⟩
  · have hreply : (Session.replies step .empty steps)[i]? =
        some (.settings ((described (steps.take i)).validate.map fun _ => described (steps.take i))) := by
      rw [Session.replies_getElem?, hbuild, hbuilder, ← build_given]
      rfl
    rw [hreply]
    refine ⟨fun h => by rw [validate_refused h]; rfl, fun h => ⟨?_, validate_described.mpr h⟩⟩
    rw [validate_described.mpr h]
    rfl
  · rw [hbuilder, remembers, hother]
  · rw [Session.after_concat, remembers, given_append_checks hchecks, ← settings_given]
    exact build_legal _ hlimit

/-- A limit of zero is refused, and after a limit of two and a half seconds the flag that was given first is built. -/
def mended : List Step :=
  [.verbose true, .timeLimit 0, .build, .validate, .policy .solutionPresent, .timeLimit 2.5, .build]

theorem mended_replies : (Session.replies step .empty mended)[2]? =
      some (.settings (.error (.badFieldValue "time_limit"))) ∧
    (Session.replies step .empty mended)[6]? =
      some (.settings (.ok ⟨some true, some 2.5, none, .solutionPresent⟩)) := by
  have hrefused : Refused (mended.take 2) := ⟨0, rfl, .inr (by decide +kernel)⟩
  have hlegal : ¬Refused (mended.take 6) := by
    rintro ⟨limit, ⟨⟩, hbad⟩
    revert hbad
    decide +kernel
  exact ⟨((replies_by_latest mended 2).2.1 rfl).1 hrefused, (((replies_by_latest mended 6).2.1 rfl).2 hlegal).1⟩

end Builder

end QpReferee

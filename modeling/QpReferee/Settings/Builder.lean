import QpReferee.Settings.Basic

/-!
# Building settings field by field

A builder remembers the latest value given to each field. It is checked before settings are built,
by the rule that settings are checked by.

* `Builder.build` : the settings with the given fields, and the defaults elsewhere.
-/

namespace QpReferee

/-- The values given so far; a field can be given the value that leaves it open. -/
structure Builder where
  verbose : Option (Option Bool)
  timeLimit : Option (Option Float)
  highAccuracy : Option (Option Bool)
  policy : Option Policy
  deriving Repr

namespace Builder

def empty : Builder := ⟨none, none, none, none⟩

def setVerbose (b : Builder) (value : Bool) : Builder := { b with verbose := some (some value) }

def setTimeLimit (b : Builder) (seconds : Float) : Builder :=
  { b with timeLimit := some (some seconds) }

def setHighAccuracy (b : Builder) (value : Bool) : Builder :=
  { b with highAccuracy := some (some value) }

def setPolicy (b : Builder) (policy : Policy) : Builder := { b with policy := some policy }

/-- The settings with the given fields, unchecked. -/
def settings (b : Builder) : Settings where
  verbose := b.verbose.getD Settings.default.verbose
  timeLimit := b.timeLimit.getD Settings.default.timeLimit
  highAccuracy := b.highAccuracy.getD Settings.default.highAccuracy
  policy := b.policy.getD Settings.default.policy

def validate (b : Builder) : Except SettingsError Unit :=
  match b.timeLimit with
  | some limit => Settings.validateTimeLimit limit
  | none => .ok ()

/-- The settings with the given fields, if they are legal. -/
def build (b : Builder) : Except SettingsError Settings := do
  b.validate
  return b.settings

end Builder

end QpReferee

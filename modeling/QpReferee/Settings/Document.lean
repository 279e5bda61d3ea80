import QpReferee.JsonText.Value
import QpReferee.JsonText.Write
import QpReferee.Settings.Builder

/-!
# Settings as a JSON document

Settings are an object with one member per setting. Reading collects the members in a builder, so a
setting that is not given has its default; other members are skipped. Instead of an object, the
values may be listed in order.

* `Settings.toJson` : the document of some settings.
* `Settings.read` : the settings of a document, whatever their values.
* `Settings.ofJson` : the settings of a document, if they are legal.
-/

namespace QpReferee

open JsonText

/-- The settings that a document can give. -/
inductive Setting where
  | verbose
  | timeLimit
  | highAccuracy
  | policy
  deriving DecidableEq, Repr

namespace Setting

/-- The settings in the order in which they are written and listed. -/
def all : List Setting := [verbose, timeLimit, highAccuracy, policy]

def key : Setting → String
  | verbose => "verbose"
  | timeLimit => "time_limit"
  | highAccuracy => "high_accuracy"
  | policy => "validation_policy"

def ofKey? (key : List Char) : Option Setting := all.find? fun s => s.key.toList == key

/-- Has a builder been given a setting? -/
def isGiven (b : Builder) : Setting → Bool
  | verbose => b.verbose.isSome
  | timeLimit => b.timeLimit.isSome
  | highAccuracy => b.highAccuracy.isSome
  | policy => b.policy.isSome

end Setting

def Policy.alternatives : Alternatives Policy Policy := .ofNames Policy.all Policy.name

/-- Read the value of a setting into a builder. -/
def readSetting (b : Builder) (setting : Setting) (s : List Char) : Read Builder :=
  match setting with
  | .verbose =>
    match readOptional readBool s with
    | .error e => .error e
    | .ok (value, rest) => .ok ({ b with verbose := some value }, rest)
  | .timeLimit =>
    match readOptional readFloat s with
    | .error e => .error e
    | .ok (value, rest) => .ok ({ b with timeLimit := some value }, rest)
  | .highAccuracy =>
    match readOptional readBool s with
    | .error e => .error e
    | .ok (value, rest) => .ok ({ b with highAccuracy := some value }, rest)
  | .policy =>
    match readVariant Policy.alternatives s with
    | .error e => .error e
    | .ok (value, rest) => .ok ({ b with policy := some value }, rest)

theorem length_readSetting_lt {b b' : Builder} {setting : Setting} {s r : List Char}
    (h : readSetting b setting s = .ok (b', r)) : r.length < s.length := by
  have hPolicy := @length_readVariant_lt _ _ _
    (length_content_ofNames_lt Policy.all Policy.name) s
  have hBool := @length_readOptional_lt _ _ @length_readBool_lt s
  have hFloat := @length_readOptional_lt _ _ @length_readFloat_lt s
  unfold readSetting Policy.alternatives at h
  grind

/-- What stands between two items of a list or an object. -/
inductive Separation where
  /-- The bracket is closed. -/
  | closed (rest : List Char)
  /-- Another item starts here. -/
  | item (rest : List Char)

/-- Read up to the next item, or past the end of the bracket. The first item has no comma in front. -/
def readSeparation (bracket : Bracket) (first : Bool) (s : List Char) : Except Error Separation :=
  match skipBlank s with
  | [] => .error .truncated
  | c :: rest =>
    if c = bracket.closing then .ok (.closed rest)
    else if first then .ok (.item (c :: rest))
    else if c = ',' then
      match skipBlank rest with
      | [] => .error .truncated
      | d :: rest => if d = bracket.closing then .error .malformed else .ok (.item (d :: rest))
    else .error .malformed

theorem length_item_le {bracket : Bracket} {first : Bool} {s r : List Char}
    (h : readSeparation bracket first s = .ok (.item r)) : r.length ≤ s.length := by
  unfold readSeparation at h
  grind [length_skipBlank_le]

/-- Read the value of a member into a builder, from after its key. A setting can be given once;
the value of any other member is skipped. -/
def readMemberValue (b : Builder) (setting : Option Setting) (s : List Char) : Read Builder :=
  match setting with
  | some setting =>
    if setting.isGiven b then .error .mismatch
    else
      match skipColon s with
      | .error e => .error e
      | .ok rest => readSetting b setting rest
  | none =>
    match skipColon s with
    | .error e => .error e
    | .ok rest =>
      match skipValue rest with
      | .error e => .error e
      | .ok rest => .ok (b, rest)

def readMember (b : Builder) (s : List Char) : Read Builder :=
  match readKey s with
  | .error e => .error e
  | .ok (key, rest) => readMemberValue b (Setting.ofKey? key) rest

theorem length_readMemberValue_lt {b b' : Builder} {setting : Option Setting} {s r : List Char}
    (h : readMemberValue b setting s = .ok (b', r)) : r.length < s.length := by
  unfold readMemberValue at h
  grind [→ length_skipColon_lt, → length_readSetting_lt, → length_skipValue_le]

theorem length_readMember_lt {b b' : Builder} {s r : List Char}
    (h : readMember b s = .ok (b', r)) : r.length < s.length := by
  unfold readMember at h
  split at h
  · cases h
  · next hKey => exact Nat.lt_trans (length_readMemberValue_lt h) (length_readKey_lt hKey)

/-- Read the members of the object from after its opening brace or from after a member. -/
def readMembers (b : Builder) (first : Bool) (s : List Char) : Read Builder :=
  match hs : readSeparation .object first s with
  | .error e => .error e
  | .ok (.closed rest) => .ok (b, rest)
  | .ok (.item item) =>
    match h : readMember b item with
    | .error e => .error e
    | .ok (b, rest) =>
      have : rest.length < s.length :=
        Nat.lt_of_lt_of_le (length_readMember_lt h) (length_item_le hs)
      readMembers b false rest
termination_by s.length

/-- Read the end of the list of values. -/
def readListEnd (b : Builder) (s : List Char) : Read Builder :=
  match skipBlank s with
  | [] => .error .truncated
  | c :: rest => if c = ']' then .ok (b, rest) else .error .malformed

/-- Read the values of the given settings from a list, which may end early. -/
def readItems (b : Builder) (first : Bool) : List Setting → List Char → Read Builder
  | [], s => readListEnd b s
  | setting :: settings, s =>
    match readSeparation .list first s with
    | .error e => .error e
    | .ok (.closed rest) => .ok (b, rest)
    | .ok (.item item) =>
      match readSetting b setting item with
      | .error e => .error e
      | .ok (b, rest) => readItems b false settings rest

namespace Settings

/-- Read settings as an object or as a list. -/
def readValue (s : List Char) : Read Builder :=
  match skipBlank s with
  | '{' :: rest => readMembers .empty true rest
  | '[' :: rest => readItems .empty true Setting.all rest
  | s => .error (unexpected s)

/-- The settings of a document, whatever their values. -/
def read (text : String) : Except Error Settings :=
  (readAll readValue text.toList).map Builder.settings

def toJson (s : Settings) : String :=
  String.ofList <| writeObject [
    (Setting.verbose.key, writeOptional writeBool s.verbose),
    (Setting.timeLimit.key, writeOptional writeNumber s.timeLimit),
    (Setting.highAccuracy.key, writeOptional writeBool s.highAccuracy),
    (Setting.policy.key, writePlain s.policy.name)]

/-- Why a document does not give settings. -/
inductive DocumentError where
  /-- The document cannot be read. -/
  | json (error : Error)
  /-- The document gives a setting an illegal value. -/
  | settings (error : SettingsError)
  deriving DecidableEq, Repr

/-- The settings of a document, if they are legal. They are checked after the whole text is read. -/
def ofJson (text : String) : Except DocumentError Settings :=
  match read text with
  | .error e => .error (.json e)
  | .ok s =>
    match s.validate with
    | .error e => .error (.settings e)
    | .ok () => .ok s

end Settings

end QpReferee

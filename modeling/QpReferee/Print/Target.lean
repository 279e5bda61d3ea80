import QpReferee.Print.Device

/-!
# Print targets

Where diagnostics go: to a device, into a buffer that can be read back, or nowhere.

* `Target.write` : writes a text; says whether it was written whole.
* `Target.writeLines` : writes texts up to the first failure.
* `Target.buffered` : the text of the buffer, if the target is one.
-/

namespace QpReferee

open Utf8 (Bytes)

/-- A destination of diagnostics. -/
inductive Target where
  | console (device : Device)
  | file (device : Device)
  | stream (device : Device)
  | buffer (bytes : Bytes)
  | sink

namespace Target

def write (target : Target) (text : String) : Target × Bool :=
  match target with
  | console device => let (device, ok) := device.writeAll (Utf8.encode text); (console device, ok)
  | file device => let (device, ok) := device.writeAll (Utf8.encode text); (file device, ok)
  | stream device => let (device, ok) := device.writeAll (Utf8.encode text); (stream device, ok)
  | buffer bytes => (buffer (bytes ++ Utf8.encode text), true)
  | sink => (sink, true)

/-- Write texts one after the other, up to the first that fails. -/
def writeLines (target : Target) : List String → Target
  | [] => target
  | text :: rest =>
    match target.write text with
    | (target, true) => writeLines target rest
    | (target, false) => target

/-- The text of the buffer. What is no text in it is replaced. -/
def buffered : Target → Option String
  | buffer bytes => some (Utf8.decodeLossy bytes)
  | _ => none

/-- What is said where there is no buffer. -/
def noBufferMessage : String := "Print buffering is not configured."

/-- The device behind a target, if there is one. -/
def device? : Target → Option Device
  | console device | file device | stream device => some device
  | buffer _ | sink => none

end Target

end QpReferee

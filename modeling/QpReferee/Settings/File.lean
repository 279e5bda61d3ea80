import QpReferee.Settings.Document
import QpReferee.Storage.ByteFile

/-!
# Settings in a file

Settings are written at the position of a file and read from there to its end.

* `Settings.readFrom` : fails if the bytes are no text, or the text no legal settings.
* `ErrorKind` : the kinds of failures, which is all that some callers look at.
-/

namespace QpReferee

/-- The kinds of failures. -/
inductive ErrorKind where
  | invalidData
  | unexpectedEof
  deriving DecidableEq, Repr

/-- A text that ends too early is of a kind of its own. -/
def JsonText.Error.kind : JsonText.Error → ErrorKind
  | malformed | mismatch => .invalidData
  | truncated => .unexpectedEof

namespace Settings

def DocumentError.kind : DocumentError → ErrorKind
  | json error => error.kind
  | settings _ => .invalidData

/-- Why a file does not give settings. -/
inductive FileError where
  /-- Its bytes are not UTF-8. -/
  | encoding
  | document (error : DocumentError)
  deriving DecidableEq, Repr

def FileError.kind : FileError → ErrorKind
  | encoding => .invalidData
  | document error => error.kind

/-- Write settings, unchecked, at the position of a file. -/
def writeTo (s : Settings) (file : ByteFile) : ByteFile := file.write (Utf8.encode s.toJson)

/-- Read settings from the position of a file to its end. One zero of a hole is as good as all of them:
no document goes on after one. -/
def readFrom (file : ByteFile) : Except FileError Settings × ByteFile :=
  let (bytes, file) := file.readBriefly
  match Utf8.decode? bytes with
  | none => (.error .encoding, file)
  | some text => ((ofJson text).mapError .document, file)

end Settings

end QpReferee

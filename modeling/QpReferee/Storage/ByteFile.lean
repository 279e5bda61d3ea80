import QpReferee.Text.Utf8

/-!
# Byte files

A file is its contents and a position. Writing replaces the bytes at the position and never shortens
the file; what lies between its end and a later position is a hole, which reads as zeros. The contents
are a list of runs, so that a hole takes no room, however long it is.

* `ByteFile.write`, `ByteFile.readRest`, `ByteFile.seek`.
* `ByteFile.readBriefly` : the same as `readRest`, but with a single zero for each hole.
-/

namespace QpReferee

open Utf8 (Bytes)

/-! ## Runs -/

/-- A part of a file: zeros that nobody has written, or bytes. -/
inductive Run where
  | hole (size : Nat)
  | data (bytes : Bytes)

namespace Run

def size : Run → Nat
  | hole n => n
  | data bytes => bytes.size

def bytes : Run → Bytes
  | hole n => Array.replicate n 0
  | data bytes => bytes

/-- The bytes, with a single zero for a hole. -/
def briefBytes : Run → Bytes
  | hole n => if n = 0 then #[] else #[0]
  | data bytes => bytes

def take (n : Nat) : Run → Run
  | hole m => hole (min n m)
  | data bytes => data (bytes.extract 0 n)

/-- What is left without the first `n` bytes. -/
def drop (n : Nat) : Run → Run
  | hole m => hole (m - n)
  | data bytes => data (bytes.extract n bytes.size)

def takeAll (n : Nat) : List Run → List Run
  | [] => []
  | run :: rest => if run.size ≤ n then run :: takeAll (n - run.size) rest else [run.take n]

/-- What is left of some runs without the first `n` bytes. -/
def dropAll (n : Nat) : List Run → List Run
  | [] => []
  | run :: rest => if run.size ≤ n then dropAll (n - run.size) rest else run.drop n :: rest

/-- A run in front of others; bytes join those that follow. -/
def prepend : Run → List Run → List Run
  | data a, data b :: rest => data (a ++ b) :: rest
  | run, rest => run :: rest

/-- The same bytes in as few runs as need be. -/
def join (runs : List Run) : List Run := (runs.filter (0 < ·.size)).foldr prepend []

def sizeAll (runs : List Run) : Nat := runs.foldr (fun run n => run.size + n) 0

end Run

/-! ## Files -/

/-- A file that is open for reading and writing. -/
structure ByteFile where
  content : List Run
  position : Nat

namespace ByteFile

def empty : ByteFile := ⟨[], 0⟩

def size (file : ByteFile) : Nat := Run.sizeAll file.content

def seek (file : ByteFile) (position : Nat) : ByteFile := { file with position }

/-- Write at the position, which moves to the end of what is written. Nothing is written for no
bytes. -/
def write (file : ByteFile) (bytes : Bytes) : ByteFile :=
  if bytes.isEmpty then file
  else
    let last := file.position + bytes.size
    let gap := .hole (file.position - file.size)
    ⟨Run.join (Run.takeAll file.position file.content ++ gap :: .data bytes ::
      Run.dropAll last file.content), last⟩

/-- The runs from the position on. The position moves to the end, or stays if it lies after it. -/
def takeRest (file : ByteFile) : List Run × ByteFile :=
  (Run.dropAll file.position file.content, { file with position := max file.position file.size })

def readRest (file : ByteFile) : Bytes × ByteFile :=
  let (runs, file) := file.takeRest
  ((runs.map Run.bytes).foldl (· ++ ·) #[], file)

/-- The bytes from the position on, with a single zero for each hole. -/
def readBriefly (file : ByteFile) : Bytes × ByteFile :=
  let (runs, file) := file.takeRest
  ((runs.map Run.briefBytes).foldl (· ++ ·) #[], file)

end ByteFile

end QpReferee

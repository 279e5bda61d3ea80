import QpReferee.Timing.Duration

/-!
# Named stopwatches

Each key has a stopwatch, which appears when it is first started and adds up the intervals between a
start and the next stop. Instants are given by the caller, in nanoseconds.

* `Stopwatches.start`, `Stopwatches.stop`, `Stopwatches.elapsed`, `Stopwatches.total`.
* `Stopwatches.report` : one line per key, keys in ascending order, then the total.
-/

namespace QpReferee

/-- A reading of the clock, in nanoseconds. -/
abbrev Instant := Nat

/-- The time added up so far, and when the running interval began. -/
structure Stopwatch where
  began : Option Instant
  elapsed : Duration
  deriving DecidableEq, Repr

namespace Stopwatch

/-- A stopwatch that was never started. -/
def idle : Stopwatch := ⟨none, .zero⟩

/-- Begin an interval; a running one is dropped. -/
def start (w : Stopwatch) (now : Instant) : Stopwatch := { w with began := some now }

/-- End the running interval, if there is one. -/
def stop (w : Stopwatch) (now : Instant) : Stopwatch :=
  match w.began with
  | some began => ⟨none, w.elapsed + ⟨now - began⟩⟩
  | none => w

end Stopwatch

/-- Stopwatches by their keys, in the order in which they were first started. -/
structure Stopwatches where
  entries : List (String × Stopwatch)
  deriving DecidableEq, Repr

namespace Stopwatches

def empty : Stopwatches := ⟨[]⟩

def get? (t : Stopwatches) (key : String) : Option Stopwatch := t.entries.lookup key

/-- Change the stopwatch of a key, if it is there. -/
def modify (t : Stopwatches) (key : String) (f : Stopwatch → Stopwatch) : Stopwatches :=
  ⟨t.entries.map fun (k, w) => if k = key then (k, f w) else (k, w)⟩

/-- Add a stopwatch for a key that has none. -/
def ensure (t : Stopwatches) (key : String) : Stopwatches :=
  if (t.get? key).isSome then t else ⟨t.entries ++ [(key, .idle)]⟩

def start (t : Stopwatches) (key : String) (now : Instant) : Stopwatches :=
  (t.ensure key).modify key (·.start now)

/-- Stop the stopwatch of a key; nothing happens to one that is idle or missing. -/
def stop (t : Stopwatches) (key : String) (now : Instant) : Stopwatches :=
  t.modify key (·.stop now)

/-- The time added up for a key; zero if it was never started. -/
def elapsed (t : Stopwatches) (key : String) : Duration :=
  match t.get? key with
  | some w => w.elapsed
  | none => .zero

def total (t : Stopwatches) : Duration := .sum (t.entries.map (·.2.elapsed))

/-- The keys in ascending order, with their times. -/
def times (t : Stopwatches) : List (String × Duration) :=
  (t.entries.map fun (key, w) => (key, w.elapsed)).mergeSort fun a b => decide (a.1 ≤ b.1)

def line (key : String) (d : Duration) : String := key ++ " : " ++ d.text ++ "\n"

def report (t : Stopwatches) : List String :=
  t.times.map (fun (key, d) => line key d) ++ [line "total" t.total]

end Stopwatches

end QpReferee

/-!
# Broken preconditions

The numerical kernels check the shapes of their arguments as they go and stop at the first that does
not fit. Sizes and counts are machine words: sums and products of them stop when they leave the word
range instead of wrapping.

* `Checked` : a result, or the precondition that was broken.
* `checkedAdd`, `checkedMul` : arithmetic on sizes.
-/

namespace QpReferee

/-- Why a kernel stopped. -/
inductive Fault where
  /-- Two lengths that have to agree do not. -/
  | length
  /-- An index or a range lies outside a list. -/
  | range
  /-- A matrix that has to be upper triangular is not. -/
  | triangle
  /-- A size leaves its range. -/
  | overflow
  /-- A list would be larger than any memory. -/
  | capacity
  deriving DecidableEq, Repr

/-- A result, or the precondition that was broken. -/
abbrev Checked (α : Type) := Except Fault α

def wordRange : Nat := Nat.pow 2 64

/-- The number of words that a list can hold at most. -/
def wordCapacity : Nat := Nat.pow 2 60

def checkedAdd (a b : Nat) : Checked Nat :=
  if a + b < wordRange then .ok (a + b) else .error .overflow

def checkedMul (a b : Nat) : Checked Nat :=
  if a * b < wordRange then .ok (a * b) else .error .overflow

/-- Stop with `fault` unless `p` holds. -/
def demand (p : Prop) [Decidable p] (fault : Fault) : Checked Unit :=
  if p then .ok () else .error fault

end QpReferee

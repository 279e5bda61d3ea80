import QpReferee.Text.Utf8

/-!
# Devices

A device takes bytes in pieces. It may take fewer than it is offered, it may refuse, and a call may
be interrupted and repeated before it answers.

A text is offered whole, so how often a device is called says nothing of the pieces in which a text
with values in it is put together: they are offered one by one, and a device that counts its calls, or
takes a bounded number of bytes in each, can tell. Two more things are left out. A device cannot take
more bytes than it is offered, and it cannot panic; both would break what is agreed with a writer.

* `Device.deliver` : offers what is left until all is taken, or the device refuses or takes nothing.
* `Device.writeAll` : stores what is taken.
* `Device.limited` : a device that takes so many bytes per call and so many in all.
-/

namespace QpReferee

open Utf8 (Bytes)

/-- A device's answer to an offer. -/
structure Answer where
  /-- How many calls are interrupted first. -/
  interruptions : Nat
  /-- How many bytes it takes; nothing if it refuses. -/
  taken : Option Nat
  deriving DecidableEq, Repr

/-- How a device answers, after a number of calls and with a number of bytes stored, when it is
offered a number of bytes. -/
abbrev Behaviour := (calls stored offered : Nat) → Answer

/-- A device: what it has stored, how often it was called, and how it answers. -/
structure Device where
  stored : Bytes
  calls : Nat
  answer : Behaviour

/-- How an offer ended. -/
structure Delivery where
  calls : Nat
  /-- How many of the bytes were taken. -/
  taken : Nat
  /-- Were all of them? -/
  complete : Bool
  deriving DecidableEq, Repr

namespace Device

/-- Offer `left` bytes, of which `taken` are taken already, until all are taken, or the device refuses
or takes nothing. -/
def deliver (answer : Behaviour) (calls stored taken left : Nat) : Delivery :=
  if left = 0 then ⟨calls, taken, true⟩
  else
    let a := answer calls (stored + taken) left
    let calls := calls + a.interruptions + 1
    match a.taken with
    | none => ⟨calls, taken, false⟩
    | some 0 => ⟨calls, taken, false⟩
    | some (n + 1) => deliver answer calls stored (taken + min (n + 1) left) (left - (n + 1))
termination_by left
decreasing_by omega

/-- Offer bytes until all are taken. The result says whether they were. -/
def writeAll (d : Device) (bytes : Bytes) : Device × Bool :=
  let delivery := deliver d.answer d.calls d.stored.size 0 bytes.size
  ({ d with
      stored := d.stored ++ bytes.extract 0 delivery.taken
      calls := delivery.calls },
    delivery.complete)

def unlimited : Device := ⟨#[], 0, fun _ _ offered => ⟨0, some offered⟩⟩

/-- The limits of a device. -/
structure Limits where
  /-- The most bytes it takes per call. -/
  chunk : Option Nat
  /-- The most bytes it takes in all. -/
  budget : Option Nat
  /-- Does a full device accept an offer and take nothing of it, instead of refusing? -/
  acceptsWhenFull : Bool
  /-- Is every other call interrupted, from the first on? -/
  interrupts : Bool
  deriving Repr

def Limits.answer (limits : Limits) : Behaviour := fun calls stored offered =>
  let room := limits.budget.map (· - stored)
  let atMost (bound : Option Nat) (n : Nat) := bound.elim n (min n)
  let taken :=
    if room = some 0 then if limits.acceptsWhenFull then some 0 else none
    else some (atMost limits.chunk (atMost room offered))
  ⟨if limits.interrupts ∧ calls % 2 = 0 then 1 else 0, taken⟩

def limited (limits : Limits) : Device := ⟨#[], 0, limits.answer⟩

end Device

end QpReferee

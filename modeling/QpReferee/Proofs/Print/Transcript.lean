import QpReferee.Print.Target
import QpReferee.Proofs.Text.Utf8

/-!
# What a target receives

Diagnostics come in two kinds. A text is written whatever became of those before it; the lines of a report
are written up to the first that fails. Where nothing fails both are taken whole. So a buffer holds all texts
that were written since it was empty, and reads them back as they were written, and a device that refuses
nothing has them at its end.

* `Transcript`, `Target.receive` : texts and a report, and a target that is given both.
* `Target.Grows` : what every write adds to, a transcript adds to.
* `Target.IsBuffer` : the targets that can be read back; no write changes which one a target is.
* `Target.Holds` : a buffer with a text, and what writing, receiving and reading make of it.
* `Target.Keeps`, `Target.keeps_receive` : a target that refuses nothing stores the transcript.
-/

namespace QpReferee

open Utf8

/-- Texts that are written one by one, and then the lines of a report. -/
structure Transcript where
  texts : List String
  report : List String

namespace Transcript

def empty : Transcript := ⟨[], []⟩

def text (t : Transcript) : String := String.join (t.texts ++ t.report)

def preceded (texts : List String) (t : Transcript) : Transcript := { t with texts := texts ++ t.texts }

end Transcript

namespace Device

/-- A device that takes something of whatever it is offered. -/
def Accepts (answer : Behaviour) : Prop :=
  ∀ calls stored offered, 0 < offered → ∃ n, (answer calls stored offered).taken = some (n + 1)

theorem deliver_complete {answer : Behaviour} (h : Accepts answer) (calls stored taken left : Nat) :
    (deliver answer calls stored taken left).taken = taken + left ∧
      (deliver answer calls stored taken left).complete = true := by
  induction left using Nat.strongRecOn generalizing calls taken with
  | ind left ih =>
    unfold deliver
    by_cases hleft : left = 0
    · rw [if_pos hleft, hleft]
      exact ⟨rfl, rfl⟩
    · obtain ⟨n, hn⟩ := h calls (stored + taken) left (Nat.pos_of_ne_zero hleft)
      obtain ⟨htaken, hcomplete⟩ := ih (left - (n + 1)) (by omega)
        (calls + (answer calls (stored + taken) left).interruptions + 1) (taken + min (n + 1) left)
      rw [if_neg hleft]
      dsimp only
      rw [hn]
      exact ⟨htaken.trans (by omega), hcomplete⟩

theorem exists_writeAll {d : Device} (h : Accepts d.answer) (bytes : Bytes) :
    ∃ calls, d.writeAll bytes = ({ d with stored := d.stored ++ bytes, calls }, true) := by
  obtain ⟨htaken, hcomplete⟩ := deliver_complete h d.calls d.stored.size 0 bytes.size
  refine ⟨(deliver d.answer d.calls d.stored.size 0 bytes.size).calls, ?_⟩
  unfold writeAll
  dsimp only
  rw [htaken, hcomplete, Nat.zero_add, Array.extract_size]

end Device

namespace Target

/-- Write texts one by one, whether or not they fail. -/
def writeEach (target : Target) (texts : List String) : Target :=
  texts.foldl (fun target text => (target.write text).1) target

def receive (target : Target) (t : Transcript) : Target :=
  (target.writeEach t.texts).writeLines t.report

theorem receive_empty (target : Target) : target.receive .empty = target := rfl

theorem receive_preceded (target : Target) (texts : List String) (t : Transcript) :
    target.receive (t.preceded texts) = (target.writeEach texts).receive t := by
  unfold receive writeEach
  rw [Transcript.preceded, List.foldl_append]

/-! ## Targets that take everything -/

/-- Every write adds to what was written before, and none fails. -/
def Grows (P : Target → String → Prop) : Prop := ∀ {target : Target} {text : String}, P target text →
  ∀ more, P (target.write more).1 (text ++ more) ∧ (target.write more).2 = true

namespace Grows

variable {P : Target → String → Prop} {target : Target} {text : String}

theorem writeEach (hP : Grows P) (h : P target text) (texts : List String) :
    P (target.writeEach texts) (text ++ String.join texts) := by
  induction texts generalizing target text with
  | nil =>
    rw [String.join_nil, String.append_empty]
    exact h
  | cons more texts ih =>
    have hrest := ih (hP h more).1
    rw [String.join_cons, ← String.append_assoc]
    exact hrest

theorem writeLines (hP : Grows P) (h : P target text) (texts : List String) :
    P (target.writeLines texts) (text ++ String.join texts) := by
  induction texts generalizing target text with
  | nil =>
    rw [String.join_nil, String.append_empty]
    exact h
  | cons more texts ih =>
    obtain ⟨hwritten, hok⟩ := hP h more
    have hrest := ih hwritten
    rw [String.join_cons, ← String.append_assoc]
    unfold Target.writeLines
    split
    · rename_i target' heq
      rw [heq] at hrest
      exact hrest
    · rename_i target' heq
      rw [heq] at hok
      cases hok

theorem receive (hP : Grows P) (h : P target text) (t : Transcript) :
    P (target.receive t) (text ++ t.text) := by
  have hreceived := hP.writeLines (hP.writeEach h t.texts) t.report
  rw [String.append_assoc, ← String.join_append] at hreceived
  exact hreceived

end Grows

/-! ## Buffers -/

def IsBuffer : Target → Prop
  | buffer _ => True
  | console _ | file _ | stream _ | sink => False

theorem buffered_eq_none_iff {target : Target} : target.buffered = none ↔ ¬target.IsBuffer := by
  cases target <;> simp [buffered, IsBuffer]

theorem isBuffer_write (target : Target) (text : String) :
    (target.write text).1.IsBuffer ↔ target.IsBuffer := by
  cases target <;> rfl

theorem isBuffer_writeEach (target : Target) (texts : List String) :
    (target.writeEach texts).IsBuffer ↔ target.IsBuffer := by
  induction texts generalizing target with
  | nil => rfl
  | cons text texts ih => exact (ih _).trans (target.isBuffer_write text)

theorem isBuffer_writeLines (target : Target) (texts : List String) :
    (target.writeLines texts).IsBuffer ↔ target.IsBuffer := by
  induction texts generalizing target with
  | nil => rfl
  | cons text texts ih =>
    have hwrite := target.isBuffer_write text
    unfold writeLines
    split
    · rename_i target' hwritten
      rw [hwritten] at hwrite
      exact (ih target').trans hwrite
    · rename_i target' hwritten
      rw [hwritten] at hwrite
      exact hwrite

theorem isBuffer_receive (target : Target) (t : Transcript) :
    (target.receive t).IsBuffer ↔ target.IsBuffer :=
  (isBuffer_writeLines _ _).trans (target.isBuffer_writeEach _)

/-- The target is a buffer, and a text was written to it. -/
def Holds (target : Target) (text : String) : Prop := target = buffer (encode text)

namespace Holds

variable {target : Target} {text : String}

theorem start : (buffer #[]).Holds "" := rfl

theorem isBuffer (h : target.Holds text) : target.IsBuffer := by
  rw [h]
  trivial

theorem read (h : target.Holds text) : target.buffered = some text := by
  rw [h, buffered, decodeLossy_encode]

theorem write (h : target.Holds text) (more : String) :
    (target.write more).1.Holds (text ++ more) ∧ (target.write more).2 = true := by
  rw [h]
  exact ⟨congrArg buffer (encode_append text more).symm, rfl⟩

theorem receive (h : target.Holds text) (t : Transcript) :
    (target.receive t).Holds (text ++ t.text) := Grows.receive write h t

end Holds

/-! ## Devices -/

/-- What was written to a target and not refused. A sink has nothing. -/
def stored : Target → Bytes
  | console device | file device | stream device => device.stored
  | buffer bytes => bytes
  | sink => #[]

/-- The target keeps whatever is written to it. -/
def Keeps : Target → Prop
  | console device | file device | stream device => Device.Accepts device.answer
  | buffer _ => True
  | sink => False

theorem keeps_write {target : Target} (h : target.Keeps) (text : String) :
    (target.write text).1.Keeps ∧ (target.write text).1.stored = target.stored ++ encode text ∧
      (target.write text).2 = true := by
  cases target with
  | buffer bytes => exact ⟨trivial, rfl, rfl⟩
  | sink => exact h.elim
  | console device | file device | stream device =>
    obtain ⟨calls, hwritten⟩ := Device.exists_writeAll h (encode text)
    unfold write
    dsimp only
    rw [hwritten]
    exact ⟨h, rfl, rfl⟩

/-- A target that keeps everything has the transcript at its end. -/
theorem keeps_receive {target : Target} (h : target.Keeps) (t : Transcript) :
    (target.receive t).Keeps ∧ (target.receive t).stored = target.stored ++ encode t.text := by
  have hgrows : Grows fun target' text =>
      target'.Keeps ∧ target'.stored = target.stored ++ encode text := by
    rintro target' text ⟨hkeeps, hstored⟩ more
    obtain ⟨hkept, hadded, hok⟩ := keeps_write hkeeps more
    refine ⟨⟨hkept, ?_⟩, hok⟩
    rw [hadded, hstored, encode_append, Array.append_assoc]
  have hstart : target.Keeps ∧ target.stored = target.stored ++ encode "" := ⟨h, Array.append_empty.symm⟩
  have hreceived := hgrows.receive hstart t
  rw [String.empty_append] at hreceived
  exact hreceived

end Target

end QpReferee

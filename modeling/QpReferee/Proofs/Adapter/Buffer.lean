import QpReferee.Proofs.Adapter.Run
import QpReferee.Proofs.Adapter.Transcript
import QpReferee.Proofs.Session

/-!
# Reading diagnostics back

Diagnostics can be sent to a buffer, which is read back as often as one likes, and elsewhere, which drops
the buffer. Between the step that starts a buffer and a read, each call adds its transcript to it, and a
read changes nothing; so a read gives the transcripts of the calls since the latest buffer was started,
none of them lost, doubled or out of order.

* `Step`, `Adapter.step` : the steps of a session, and what they reply.
* `Adapter.transcripts` : one transcript for each call.
* `Adapter.holds_after` : a buffer after steps that do not redirect.
* `Adapter.started_of_isBuffer` : the step from which the buffer comes that a session ends with.
* `Adapter.reads_transcripts` : **what a read replies.**
-/

namespace QpReferee

variable {σ T W : Type}

/-- What can be done with an adapter. -/
inductive Step (T : Type) where
  | solve (call : Call T)
  /-- Start a buffer. -/
  | printToBuffer
  /-- Send diagnostics to a target that is no buffer. -/
  | printTo (outlet : { target : Target // ¬target.IsBuffer })
  | readBuffer

/-- What a step replies. -/
inductive Reply (T : Type) where
  | outcome (outcome : Attempt (Record T))
  | text (text : Except String String)
  | done

/-- The step gives the adapter another target. -/
def Step.Redirects : Step T → Prop
  | .printToBuffer | .printTo _ => True
  | .solve _ | .readBuffer => False

/-- The latest redirection among some steps was to a buffer, and parts them. -/
def SinceBuffer (steps earlier later : List (Step T)) : Prop :=
  steps = earlier ++ .printToBuffer :: later ∧ ∀ step ∈ later, ¬step.Redirects

def Target.read (target : Target) : Except String String :=
  match target.buffered with
  | some text => .ok text
  | none => .error noBufferMessage

theorem Target.read_eq_error_iff {target : Target} :
    target.read = .error noBufferMessage ↔ ¬target.IsBuffer := by
  rw [← buffered_eq_none_iff, Target.read]
  cases target.buffered <;> simp

namespace Adapter

variable [BinaryScalar T]

def step (a : Adapter σ T W) : Step T → Adapter σ T W × Reply T
  | .solve call => ((a.solve call.problem call.laps).1, .outcome (a.solve call.problem call.laps).2)
  | .printToBuffer => ({ a with target := .buffer #[] }, .done)
  | .printTo outlet => ({ a with target := outlet }, .done)
  | .readBuffer => (a, .text a.target.read)

/-- What the calls among some steps write, one transcript for each. -/
def transcripts (a : Adapter σ T W) : List (Step T) → List Transcript
  | [] => []
  | .solve call :: steps =>
    (a.answers call.problem).transcript (a.log call.problem) a.name a.settings a.table call.problem
      call.laps :: (a.step (.solve call)).1.transcripts steps
  | step :: steps => (a.step step).1.transcripts steps

/-! ## Steps that do not redirect -/

variable {a : Adapter σ T W}

theorem holds_solve {text : String} (h : a.target.Holds text) (call : Call T) :
    (a.step (.solve call)).1.target.Holds (text ++ ((a.answers call.problem).transcript
      (a.log call.problem) a.name a.settings a.table call.problem call.laps).text) := by
  show (a.solve call.problem call.laps).1.target.Holds _
  rw [solve_target]
  exact h.receive _

theorem holds_after {text : String} (h : a.target.Holds text) {steps : List (Step T)}
    (hsteps : ∀ step ∈ steps, ¬step.Redirects) :
    (Session.after step a steps).target.Holds (text ++ String.join ((a.transcripts steps).map Transcript.text)) := by
  induction steps generalizing a text with
  | nil =>
    show a.target.Holds (text ++ String.join [])
    rw [String.join_nil, String.append_empty]
    exact h
  | cons step steps ih =>
    rw [List.forall_mem_cons] at hsteps
    obtain ⟨hstep, hrest⟩ := hsteps
    cases step with
    | solve call =>
      have hsolved := ih (holds_solve h call) hrest
      rw [String.append_assoc, ← String.join_cons] at hsolved
      exact hsolved
    | readBuffer => exact ih h hrest
    | printToBuffer => exact absurd trivial hstep
    | printTo outlet => exact absurd trivial hstep

theorem isBuffer_solve (a : Adapter σ T W) (call : Call T) :
    (a.step (.solve call)).1.target.IsBuffer ↔ a.target.IsBuffer := by
  show (a.solve call.problem call.laps).1.target.IsBuffer ↔ _
  rw [solve_target]
  exact Target.isBuffer_receive _ _

theorem started_of_isBuffer {steps : List (Step T)} (h : (Session.after step a steps).target.IsBuffer) :
    (a.target.IsBuffer ∧ ∀ step ∈ steps, ¬step.Redirects) ∨
      ∃ earlier later, SinceBuffer steps earlier later := by
  induction steps generalizing a with
  | nil => exact .inl ⟨h, by simp⟩
  | cons step steps ih =>
    rcases ih h with ⟨hbuffer, hnone⟩ | ⟨earlier, later, rfl, hlater⟩
    -- the target after the first step stayed; it is the one that this step left or the one before it
    · cases step with
      | solve call => exact .inl ⟨(isBuffer_solve a call).mp hbuffer, List.forall_mem_cons.mpr ⟨id, hnone⟩⟩
      | readBuffer => exact .inl ⟨hbuffer, List.forall_mem_cons.mpr ⟨id, hnone⟩⟩
      | printToBuffer => exact .inr ⟨[], steps, rfl, hnone⟩
      | printTo outlet => exact absurd hbuffer outlet.2
    · exact .inr ⟨step :: earlier, later, rfl, hlater⟩

/-- What the latest buffer holds. -/
theorem holds_since {steps earlier later : List (Step T)} (h : SinceBuffer steps earlier later) :
    (Session.after step a steps).target.Holds (String.join
      (((Session.after step a (earlier ++ [.printToBuffer])).transcripts later).map Transcript.text)) := by
  obtain ⟨rfl, hlater⟩ := h
  have hstarted : (Session.after step a (earlier ++ [.printToBuffer])).target.Holds "" := by
    rw [Session.after_append]
    exact .start
  have hheld := holds_after hstarted hlater
  rw [← Session.after_append, List.append_assoc, String.empty_append] at hheld
  exact hheld

/-- **What a read replies.** A read changes nothing. It is an error exactly if the target is no buffer; for
an adapter that did not start with one, the target is a buffer exactly if the latest redirection was to a
buffer, and then the reply is the transcripts of the calls since, in their order. -/
theorem reads_transcripts (a : Adapter σ T W) (hstart : ¬a.target.IsBuffer) {steps : List (Step T)}
    {i : Nat} (hread : steps[i]? = some .readBuffer) :
    Session.after step a (steps.take (i + 1)) = Session.after step a (steps.take i) ∧
    ((Session.replies step a steps)[i]? = some (.text (.error Target.noBufferMessage)) ↔
      ¬(Session.after step a (steps.take i)).target.IsBuffer) ∧
    ((Session.after step a (steps.take i)).target.IsBuffer ↔
      ∃ earlier later, SinceBuffer (steps.take i) earlier later) ∧
    ∀ earlier later, SinceBuffer (steps.take i) earlier later →
      (Session.replies step a steps)[i]? = some (.text (.ok (String.join
        (((Session.after step a (earlier ++ [.printToBuffer])).transcripts later).map Transcript.text)))) := by
  have hreply : (Session.replies step a steps)[i]? =
      some (.text (Session.after step a (steps.take i)).target.read) := by
    rw [Session.replies_getElem?, hread]
    rfl
  refine ⟨?_, ?_, ?_, ?_⟩
  · rw [List.take_add_one, hread]
    exact Session.after_concat step a (steps.take i) .readBuffer
  · rw [hreply, Option.some.injEq, Reply.text.injEq, Target.read_eq_error_iff]
  · constructor
    · intro hbuffer
      exact (started_of_isBuffer hbuffer).resolve_left fun h => hstart h.1
    · rintro ⟨earlier, later, hsince⟩
      exact (holds_since hsince).isBuffer
  · intro earlier later hsince
    rw [hreply, Target.read, (holds_since hsince).read]

/-- An engine with a log that finds a solution with a wrong multiplier, except in its second solve. -/
def falteringEngine : Engine Nat Float Status where
  solve solved _ _ := (solved + 1, if solved = 1 then .ok (.error (.solverFailure "boom")) else .ok (.ok 1))
  status _ := .ok .optimal
  info _ := .ok .unknown
  takeLog solved := (solved, .ok (some "iter 1\n"))
  revert _ _ := .ok ⟨some [1], some [1]⟩

def faltering : Adapter Nat Float Status :=
  .new "MOCK" falteringEngine id { Settings.default with verbose := some true } 0

/-- A call before the buffer is started, and two after. -/
def session : List (Step Float) :=
  [.solve slowCall, .printToBuffer, .solve squareCall, .solve slowCall, .readBuffer]

/-- The first call is written to the console. The second, which fails, and the third, whose solution is
refused, are read back. -/
theorem faltering_reads : (Session.replies step faltering session)[4]? = some (.text (.ok
    ("iter 1\nError in MOCK solution: Solver failure: boom\n" ++
      "iter 1\nSolution from MOCK failed validation: Stationarity residual 1e0 exceeds tolerance 3e-3\n" ++
        "revert : 2ms\nsolve : 1.5s\nvalidate : 250µs\ntotal : 1.50225s\n"))) := by
  have hsince : SinceBuffer (session.take 4) [.solve slowCall] [.solve squareCall, .solve slowCall] := by
    refine ⟨rfl, ?_⟩
    simp [Step.Redirects]
  have hstart : ¬faltering.target.IsBuffer := id
  rw [(reads_transcripts faltering hstart (i := 4) rfl).2.2.2 _ _ hsince]
  have htext : String.join (((Session.after step faltering [.solve slowCall, .printToBuffer]).transcripts
      [.solve squareCall, .solve slowCall]).map Transcript.text) =
        "iter 1\nError in MOCK solution: Solver failure: boom\n" ++
          "iter 1\nSolution from MOCK failed validation: Stationarity residual 1e0 exceeds tolerance 3e-3\n" ++
            "revert : 2ms\nsolve : 1.5s\nvalidate : 250µs\ntotal : 1.50225s\n" := by
    decide +kernel
  exact congrArg (fun text => some (Reply.text (.ok text))) htext

end Adapter

end QpReferee

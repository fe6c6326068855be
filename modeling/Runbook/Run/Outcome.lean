import Runbook.Context
import Runbook.Run.Attempt

/-!
# Runbook.Run.Outcome

What a run leaves behind. Beside the final context there are three logs: the transcript with one
line for each attempt and each skipped step, a visit for each time that a step was carried out or
passed over, and the invocations with their arguments and results.
-/

namespace Runbook

/-- What became of a step, or of one iteration of it. -/
inductive Disposition where
  /-- The condition did not hold. -/
  | skipped
  /-- An attempt succeeded. -/
  | succeeded
  /-- All attempts failed, and the step allows that. -/
  | tolerated
  /-- All attempts failed, and the run ends. -/
  | fatal
deriving DecidableEq

/-- Does the run end here? -/
def Disposition.endsRun (d : Disposition) : Bool := d = .fatal

/-- What became of a step that the run came to. -/
structure Visit where
  /-- The identifier of the step. -/
  id : String
  /-- What became of it. -/
  disposition : Disposition
  /-- How often the capability was invoked. -/
  attempts : Nat
  /-- The place of the item, if the step is a loop. -/
  iteration : Option Nat
deriving DecidableEq

/-- One invocation that a run made. -/
structure Invocation where
  /-- The identifier of the step. -/
  id : String
  /-- The place of the item, if the step is a loop. -/
  iteration : Option Nat
  /-- The name of the capability. -/
  tool : String
  /-- The arguments after rendering. -/
  args : Entries
  /-- The result and the pause behind it. -/
  attempt : Attempt

/-- The logs of a run. -/
structure Trace where
  /-- The lines of the transcript. -/
  transcript : List String
  /-- The visits of steps. -/
  visits : List Visit
  /-- The invocations of capabilities. -/
  invocations : List Invocation

namespace Trace

/-- Logs without entries. -/
def empty : Trace := ⟨[], [], []⟩

/-- The logs of two parts of a run, one after the other. -/
def append (first second : Trace) : Trace :=
  ⟨first.transcript ++ second.transcript, first.visits ++ second.visits,
    first.invocations ++ second.invocations⟩

instance : Append Trace := ⟨append⟩

theorem append_def (s t : Trace) :
    s ++ t = ⟨s.transcript ++ t.transcript, s.visits ++ t.visits, s.invocations ++ t.invocations⟩ :=
  rfl

theorem empty_append (t : Trace) : empty ++ t = t := rfl

theorem append_empty (t : Trace) : t ++ empty = t := by
  simp [append_def, empty]

theorem append_assoc (s t u : Trace) : s ++ t ++ u = s ++ (t ++ u) := by
  simp [append_def, List.append_assoc]

end Trace

/-- The result of a run. -/
structure Outcome where
  /-- Was every step carried out, skipped or tolerated? -/
  success : Bool
  /-- What the run has to say of itself. -/
  output : Value
  /-- The logs. -/
  trace : Trace
  /-- The parameters as they were given. -/
  params : Entries
  /-- The context behind the last step. -/
  context : Entries
  /-- The step that ended the run. -/
  failedStep : Option String

namespace Outcome

/-- The output of a run that came to its end. -/
def completedText : String := "workflow completed"

/-- The output of a run that was cancelled. -/
def cancelledText : String := "workflow cancelled"

/-- The outcome of a run that could not start, for want of a document. -/
def rejected (output : Value) (params : Entries) : Outcome :=
  ⟨false, output, .empty, params, [], none⟩

/-- The transcript as a value. -/
def transcriptValue (outcome : Outcome) : Value :=
  .array (outcome.trace.transcript.map .string)

/-- The outcome as the report of a capability. A success tells the parameters and the context, a
failure the step. -/
def toReport (outcome : Outcome) : Report :=
  if outcome.success then
    ⟨outcome.output, true, some [("transcript", outcome.transcriptValue),
      ("params", .object outcome.params), ("context", .object outcome.context)]⟩
  else
    ⟨outcome.output, false, some ((match outcome.failedStep with
      | some id => [("step", .string id)]
      | none => []) ++ [("transcript", outcome.transcriptValue)])⟩

/-- The record of a step in the final context. -/
def stepRecord? (outcome : Outcome) (id : String) : Option Value :=
  (Entries.get? Context.stepsKey outcome.context).bind fun v => v.member? id

end Outcome

end Runbook

import Runbook.Text.Blank
import Runbook.Text.Numeral
import Runbook.Value.Misfit

/-!
# Runbook.Step

The steps of a workflow. A step names a capability and says with which arguments, under which
condition, over which items and how often it is invoked. All fields have defaults, so the empty
mapping is a step. A step may be written as a mapping or as the list of its fields in order, and
`Step.toValue` writes it as a mapping with all fields.
-/

namespace Runbook

/-- One step of a workflow. -/
structure Step where
  /-- The name under which the output and the record are kept. -/
  id : String
  /-- The capability to invoke. -/
  tool : Option String
  /-- A note for the reader. -/
  description : Option String
  /-- The arguments, before their templates are rendered. -/
  args : Entries
  /-- The condition under which the step is carried out. -/
  condition : Option Value
  /-- The items to repeat the step for. -/
  loop : Option Value
  /-- The key that is bound to the current item. -/
  loopVariable : String
  /-- How many attempts may follow a failed first one. -/
  retries : Nat
  /-- Does the run go on if all attempts fail? -/
  allowFailure : Bool
  /-- A further key for the output. -/
  assign : Option String
  /-- The text of the delay between attempts. -/
  retryDelay : Option String

namespace Step

/-- The identifier of a step that has none. -/
def unknownId : String := "unknown"

/-- The largest number of retries. -/
def maxRetries : Nat := 100

/-- A step without any field. -/
def default : Step where
  id := unknownId
  tool := none
  description := none
  args := []
  condition := none
  loop := none
  loopVariable := "item"
  retries := 0
  allowFailure := false
  assign := none
  retryDelay := none

/-! ## Reading -/

/-- The number of retries for an integer. -/
def retriesOfInt (i : Int) : Except Misfit Nat :=
  if i < 0 ∨ 0x100000000 ≤ i then
    .error (.refused ("retries must be a non-negative integer, got " ++
      String.ofList (Text.integerText i)))
  else if (maxRetries : Int) < i then
    .error (.refused ("retries must be at most " ++ toString maxRetries ++ ", got " ++
      String.ofList (Text.integerText i)))
  else .ok i.toNat

/-- The number of retries: an integer, a string that spells one, or null for none. An integer
beyond the signed 64-bit range is of no known kind. -/
def asRetries : Value → Except Misfit Nat
  | .null => .ok 0
  | .string s =>
    match Text.integer? (Text.trim s.toList) with
    | some i => retriesOfInt i
    | none => .error (.refused ("retries must be an integer, got '" ++ s ++ "'"))
  | .number (.int i) => if i < (Text.signedLimit : Int) then retriesOfInt i else .error unreadable
  | _ => .error unreadable
where
  /-- The misfit of a value that is neither integer, string nor null. -/
  unreadable : Misfit := .refused "data did not match any variant of untagged enum RetryCount"

/-- The fields in the order in which a list gives them. -/
def fields : List String :=
  ["id", "tool", "description", "args", "when", "loop", "loop_var", "retries", "allow_failure",
    "assign", "retry_delay"]

/-- A present value, where null counts as absent. -/
def present : Value → Option Value
  | .null => none
  | v => some v

/-- Assigns a field by its name; other names are passed over. -/
def assignField (step : Step) (name : String) (v : Value) : Except Misfit Step :=
  match name with
  | "id" => v.asString.map fun x => { step with id := x }
  | "tool" => (v.optionally Value.asString).map fun x => { step with tool := x }
  | "description" => (v.optionally Value.asString).map fun x => { step with description := x }
  | "args" => v.asEntries.map fun x => { step with args := x }
  | "when" => .ok { step with condition := present v }
  | "loop" => .ok { step with loop := present v }
  | "loop_var" => v.asString.map fun x => { step with loopVariable := x }
  | "retries" => (asRetries v).map fun x => { step with retries := x }
  | "allow_failure" => v.asBool.map fun x => { step with allowFailure := x }
  | "assign" => (v.optionally Value.asString).map fun x => { step with assign := x }
  | "retry_delay" => (v.optionally Value.asString).map fun x => { step with retryDelay := x }
  | _ => .ok step

/-- Reads a step. -/
def ofValue (v : Value) : Except Misfit Step :=
  v.asRecord assignField "struct StepDescriptor" fields default

/-- The identifier that a value declares, whether or not it is a step. -/
def idOfValue (v : Value) : String := ((v.member? "id").bind Value.string?).getD unknownId

/-! ## Writing -/

/-- The step as a mapping with all its fields, absent ones null. -/
def toValue (step : Step) : Value :=
  .object [("id", .string step.id), ("tool", .optionalText step.tool),
    ("description", .optionalText step.description), ("args", .object step.args),
    ("when", step.condition.getD .null), ("loop", step.loop.getD .null),
    ("loop_var", .string step.loopVariable), ("retries", .ofNat step.retries),
    ("allow_failure", .bool step.allowFailure), ("assign", .optionalText step.assign),
    ("retry_delay", .optionalText step.retryDelay)]

end Step

end Runbook

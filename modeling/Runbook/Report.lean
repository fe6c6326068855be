import Runbook.Value.Misfit

/-!
# Runbook.Report

What a capability reports and what a run keeps of it. A `Report` says whether the invocation
succeeded, what it produced, and optional details; its record (`Report.toRecord`) is the same
information as stored under the identifier of a step.
-/

namespace Runbook

/-- The outcome of one invocation of a capability. -/
structure Report where
  /-- What the invocation produced. -/
  output : Value
  /-- Did it succeed? -/
  success : Bool
  /-- Details, if there are any. -/
  metadata : Option Entries

namespace Report

/-- A success without details. -/
def succeeded (output : Value) : Report := ⟨output, true, none⟩

/-- A failure without details. -/
def failed (output : Value) : Report := ⟨output, false, none⟩

/-- Adds a detail, or replaces it. -/
def withDetail (report : Report) (key : String) (value : Value) : Report :=
  { report with metadata := some (Entries.set key value (report.metadata.getD [])) }

/-- The metadata as a value, null if there is none. -/
def metadataValue (report : Report) : Value :=
  match report.metadata with
  | some details => .object details
  | none => .null

/-- The output as text. -/
def outputText (report : Report) : String := report.output.display

/-- The report as a mapping of its three fields. -/
def toValue (report : Report) : Value :=
  .object [("success", .bool report.success), ("output", report.output),
    ("metadata", report.metadataValue)]

/-- The report as it is stored under the identifier of a step. -/
def toRecord (report : Report) : Value :=
  .object [("output", report.output), ("metadata", report.metadataValue),
    ("success", .bool report.success)]

/-! ## Reading -/

/-- The fields of a report that is being read; the first two have no default. -/
structure Draft where
  /-- The output, once it is read. -/
  output : Option Value
  /-- The success flag, once it is read. -/
  success : Option Bool
  /-- The details. -/
  metadata : Option Entries

/-- The kind of a report in messages. -/
def kind : String := "struct CapabilityResult"

/-- The fields in the order in which a list gives them. -/
def fields : List String := ["output", "success", "metadata"]

/-- Assigns a field by its name; other names are passed over. -/
def Draft.assignField (draft : Draft) (name : String) (v : Value) : Except Misfit Draft :=
  match name with
  | "output" => .ok { draft with output := some v }
  | "success" => v.asBool.map fun x => { draft with success := some x }
  | "metadata" => (v.optionally Value.asEntries).map fun x => { draft with metadata := x }
  | _ => .ok draft

/-- The finished report, unless a field without default is missing. -/
def Draft.finish (draft : Draft) (missing : Nat → String → Misfit) : Except Misfit Report :=
  match draft.output, draft.success with
  | none, _ => .error (missing 0 "output")
  | some _, none => .error (missing 1 "success")
  | some output, some success => .ok ⟨output, success, draft.metadata⟩

/-- Reads a report. -/
def ofValue (v : Value) : Except Misfit Report :=
  match v.asRecord Draft.assignField kind fields ⟨none, none, none⟩ with
  | .error m => .error m
  | .ok draft =>
    draft.finish fun length name =>
      match v with
      | .array _ => .tooShort length (kind ++ " with 3 elements")
      | _ => .missingField name

end Report

end Runbook

import Runbook.Report

/-!
# Runbook.Document

The shape of a workflow document: a mapping with a list under `steps`. The items of the list are not
looked at here; what is wrong with one of them shows when the run reaches it.
-/

namespace Runbook.Document

/-- Why a document is no workflow. -/
inductive Defect where
  /-- There is no document. -/
  | missing
  /-- The document is no mapping, or has no `steps`. -/
  | noSteps
  /-- The `steps` are no list. -/
  | stepsNotList
deriving DecidableEq

/-- The description of a defect. -/
def Defect.message : Defect → String
  | missing => "workflow document is missing"
  | noSteps => "workflow missing 'steps'"
  | stepsNotList => "'steps' must be a list"

/-- The steps of a document. -/
def steps (document : Option Value) : Except Defect (List Value) :=
  match document with
  | none => .error .missing
  | some v =>
    match v.member? "steps" with
    | none => .error .noSteps
    | some (.array items) => .ok items
    | some _ => .error .stepsNotList

/-- The verdict on a document as a report. -/
def verdict (document : Option Value) : Report :=
  match steps document with
  | .ok items => ⟨.string "valid", true, some [("step_count", .ofNat items.length)]⟩
  | .error d => .failed (.string d.message)

end Runbook.Document

import Runbook.Report

/-!
# Runbook.Context

The values that the steps of a run can refer to. A context is a mapping that starts as the
parameters of the run; a committed step adds its output under its identifier and its record to the
mapping under the reserved key `steps`.

The reserved key always holds a mapping (`hasRecords_ofParameters`, `hasRecords_set`,
`hasRecords_record`): parameters cannot change that, and no binding may replace it.
-/

namespace Runbook

/-- The values that are visible to a step. -/
structure Context where
  /-- All bindings, in the order of their first assignment. -/
  entries : Entries

namespace Context

/-- The key that holds the records of steps. -/
def stepsKey : String := "steps"

/-- Is a key not to be bound by a step? -/
def isReserved (key : String) : Bool := key = stepsKey

/-- Does the reserved key hold a mapping? -/
def hasRecords (context : Context) : Bool :=
  ((Entries.get? stepsKey context.entries).bind Value.entries?).isSome

/-- The context of a run before its first step. A parameter under the reserved key counts only if
it is a mapping. -/
def ofParameters (parameters : Entries) : Context :=
  if ((Entries.get? stepsKey parameters).bind Value.entries?).isSome then ⟨parameters⟩
  else ⟨Entries.set stepsKey (.object []) parameters⟩

/-- A context without parameters. -/
def empty : Context := ofParameters []

/-- The value of a key. -/
def get? (context : Context) (key : String) : Option Value := Entries.get? key context.entries

/-- Binds a key, unless it is the reserved one. -/
def set (context : Context) (key : String) (value : Value) : Context :=
  if isReserved key then context else ⟨Entries.set key value context.entries⟩

/-- The records of the steps so far. -/
def records (context : Context) : Entries :=
  ((context.get? stepsKey).bind Value.entries?).getD []

/-- Stores the record of a step, and its output under the step's identifier. -/
def record (context : Context) (id : String) (report : Report) : Context :=
  let records := Entries.set id report.toRecord context.records
  set ⟨Entries.set stepsKey (.object records) context.entries⟩ id report.output

/-- The record of a step. -/
def stepRecord? (context : Context) (id : String) : Option Value :=
  Entries.get? id context.records

/-- The values of some keys: of each the binding, or else the output of the step with that
identifier, or else null. -/
def select (context : Context) (keys : List String) : Entries :=
  Entries.ofBindings <| keys.map fun key =>
    (key, ((context.get? key).or ((context.stepRecord? key).bind (·.member? "output"))).getD .null)

/-- A context starts with a place for records. -/
theorem hasRecords_ofParameters (parameters : Entries) :
    (ofParameters parameters).hasRecords = true := by
  unfold ofParameters
  split
  · next h => exact h
  · simp [hasRecords, Entries.get?_set, Value.entries?]

/-- An entry that is set keeps it. -/
theorem hasRecords_set {context : Context} (h : context.hasRecords = true) (key : String)
    (value : Value) : (context.set key value).hasRecords = true := by
  unfold set
  split
  · exact h
  · next hk =>
    have hk : key ≠ stepsKey := by simpa [isReserved] using hk
    simpa [hasRecords, Entries.get?_set, hk] using h

/-- So does a record. -/
theorem hasRecords_record (context : Context) (id : String) (report : Report) :
    (context.record id report).hasRecords = true := by
  apply hasRecords_set
  simp [hasRecords, Entries.get?_set, Value.entries?]

end Context

end Runbook

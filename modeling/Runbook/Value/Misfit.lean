import Runbook.Text.Inspection
import Runbook.Value.Writing

/-!
# Runbook.Value.Misfit

Reading records out of values. A record is written as a mapping with named fields, or as the list
of its fields in order. What does not fit is named with what was found and what was expected
(`Misfit.message`); the first misfit in the order of the value is the one reported.
-/

namespace Runbook

/-- Why a value does not fit a record. -/
inductive Misfit where
  /-- A value of another kind. -/
  | wrongKind (found : Value) (expected : String)
  /-- A mapping without a field that has no default. -/
  | missingField (name : String)
  /-- A list that ends before a field that has no default. -/
  | tooShort (length : Nat) (expected : String)
  /-- A list with more items than the record has fields. -/
  | tooLong (length : Nat)
  /-- A reason of the field's own. -/
  | refused (reason : String)

/-- What kind of value a message says was found. -/
def Value.kindText : Value → String
  | .null => "null"
  | .bool b => "boolean `" ++ String.ofList (boolText b) ++ "`"
  | .number (.int i) => "integer `" ++ String.ofList (Number.int i).chars ++ "`"
  | .number (.float x) => "floating point `" ++ String.ofList (Number.float x).chars ++ "`"
  | .string s => "string " ++ Text.inspect s
  | .array _ => "sequence"
  | .object _ => "map"

/-- The description of a misfit. -/
def Misfit.message : Misfit → String
  | wrongKind found expected => "invalid type: " ++ found.kindText ++ ", expected " ++ expected
  | missingField name => "missing field `" ++ name ++ "`"
  | tooShort length expected =>
    "invalid length " ++ toString length ++ ", expected " ++ expected
  | tooLong length =>
    "invalid length " ++ toString length ++ ", expected fewer elements in array"
  | refused reason => reason

namespace Value

/-! ## Fields -/

/-- A string. -/
def asString : Value → Except Misfit String
  | .string s => .ok s
  | v => .error (.wrongKind v "a string")

/-- A boolean. -/
def asBool : Value → Except Misfit Bool
  | .bool b => .ok b
  | v => .error (.wrongKind v "a boolean")

/-- A mapping. -/
def asEntries : Value → Except Misfit Entries
  | .object es => .ok es
  | v => .error (.wrongKind v "a map")

/-- Null for nothing, or a field of another kind. -/
def optionally {α : Type} (field : Value → Except Misfit α) : Value → Except Misfit (Option α)
  | .null => .ok none
  | v => (field v).map some

/-! ## Records -/

variable {α : Type} (assign : α → String → Value → Except Misfit α)

/-- Assigns the entries of a mapping in their order; `assign` passes over names that it does not
know. -/
def assignEntries (record : α) : List (String × Value) → Except Misfit α
  | [] => .ok record
  | (name, v) :: es =>
    match assign record name v with
    | .error m => .error m
    | .ok record => assignEntries record es

/-- Assigns the items of a list to the fields in their order, as far as both go. -/
def assignItems (record : α) : List String → List Value → Except Misfit α
  | name :: names, v :: vs =>
    match assign record name v with
    | .error m => .error m
    | .ok record => assignItems record names vs
  | _, _ => .ok record

/-- Reads a record whose fields all have defaults. -/
def asRecord (kind : String) (fields : List String) (default : α) : Value → Except Misfit α
  | .object es => assignEntries assign default es
  | .array items =>
    match assignItems assign default fields items with
    | .error m => .error m
    | .ok record =>
      if fields.length < items.length then .error (.tooLong items.length) else .ok record
  | v => .error (.wrongKind v kind)

end Value

end Runbook

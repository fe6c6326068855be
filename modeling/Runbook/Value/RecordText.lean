import Runbook.Value.Misfit
import Runbook.Value.Skipping

/-!
# Runbook.Value.RecordText

Reading a record straight from a data text, so that a field that does not fit is a fault with a
place. A `RecordFormat` names the fields and says how each is read. The text is a mapping, in which
fields may be left out and unknown ones are passed over, or a list of the first fields in order. A
field must not occur twice.
-/

namespace Runbook

namespace Reading

/-! ## Fields -/

/-- The fault of a value of another kind. It lies behind a value that is no list or mapping, and
before one that is. -/
def mismatch {α : Type} (expected : String) (cs : List Char) : Except Fault α :=
  match cs with
  | '[' :: _ => fault (.unfit (Misfit.wrongKind (.array []) expected).message) cs 0
  | '{' :: _ => fault (.unfit (Misfit.wrongKind (.object []) expected).message) cs 0
  | _ =>
    match value 0 1 cs with
    | .error f => .error f
    | .ok (v, rest) => fault (.unfit (Misfit.wrongKind v expected).message) rest 0

/-- A string; `expected` is what a message calls it. -/
def textField (expected : String) (cs : List Char) : Reading String :=
  match skipGaps cs with
  | '"' :: rest => string rest
  | cs => mismatch expected cs

/-- Null, which says nothing. -/
def nullField (cs : List Char) : Except Fault (List Char) :=
  match skipGaps cs with
  | 'n' :: rest => word "ull".toList rest
  | cs => mismatch "unit" cs

/-- Null for nothing, or a field of another kind. -/
def optionalField {α : Type} (field : List Char → Reading α) (cs : List Char) :
    Reading (Option α) :=
  match skipGaps cs with
  | 'n' :: rest => (word "ull".toList rest).map fun rest => (none, rest)
  | cs => (field cs).map fun (x, rest) => (some x, rest)

/-- Names as a message lists them. -/
def alternatives (names : List String) : String :=
  " or ".intercalate (names.map fun name => "`" ++ name ++ "`")

/-- The choice that a name stands for; `rest` is the text behind the name. -/
def choice {α : Type} (choices : List (String × α)) (name : String) (rest : List Char) :
    Except Fault α :=
  match choices.find? fun c => c.1 = name with
  | some c => .ok c.2
  | none => fault (.unfit ("unknown variant `" ++ name ++ "`, expected " ++
      alternatives (choices.map (·.1)))) rest 0

/-- One of some choices: its name, or a mapping of its name to null. -/
def choiceField {α : Type} (choices : List (String × α)) (cs : List Char) :
    Except Fault (α × List Char) :=
  match skipGaps cs with
  | [] => fault .endInValue [] 0
  | '"' :: rest => do
    let (name, rest) ← string rest
    return (← choice choices name rest, rest)
  | '{' :: rest => do
    let (name, rest) ← textField "variant identifier" rest
    let x ← choice choices name rest
    match skipGaps (← nullField (← colon rest)) with
    | [] => fault .endInObject [] 0
    | '}' :: rest => return (x, rest)
    | rest => fault .expectedValue rest 0
  | cs => fault .expectedValue cs 1

end Reading

/-! ## Records -/

/-- How a record is written. -/
structure RecordFormat (α : Type) where
  /-- The kind of the record in messages. -/
  kind : String
  /-- The record without any field. -/
  default : α
  /-- The names of the fields in order, and how each is read and assigned. -/
  fields : List (String × (α → List Char → Reading α))

namespace RecordFormat

open Reading

variable {α : Type} (format : RecordFormat α)

/-- How a field is read, if the record has it. -/
def field? (name : String) : Option (α → List Char → Reading α) :=
  (format.fields.find? fun f => f.1 = name).map (·.2)

/-- The fault of a field that occurs again, from behind its name. -/
def again (name : String) (rest : List Char) : Except Fault α :=
  let place :=
    match skipGaps rest with
    | '}' :: rest => rest
    | rest => rest
  fault (.unfit ("duplicate field `" ++ name ++ "`")) place 0

/-- Reads the entry of a field, from behind its name. -/
def entry (record : α) (name : String) (rest : List Char) : Reading α :=
  match colon rest with
  | .error f => .error f
  | .ok rest =>
    match format.field? name with
    | some read => read record rest
    | none => (skipValue (stepsFor rest) rest).map fun rest => (record, rest)

/-- Reads the entries of a mapping up to its closing brace, from behind the quote that opens a key;
`seen` are the fields before. -/
def entries (record : α) (seen : List String) : Nat → List Char → Except Fault (α × List Char)
  | 0, cs => fault .expectedValue cs 0
  | steps + 1, cs => do
    let (name, rest) ← string cs
    if seen.contains name then (again name rest).map fun record => (record, rest)
    else
      let (record, rest) ← format.entry record name rest
      let seen := if (format.field? name).isSome then name :: seen else seen
      match skipGaps rest with
      | [] => fault .endInObject [] 0
      | '}' :: rest => return (record, rest)
      | ',' :: rest =>
        match skipGaps rest with
        | [] => fault .endInValue [] 0
        | '"' :: rest => entries record seen steps rest
        | '}' :: rest => fault .trailingComma ('}' :: rest) 1
        | rest => fault .keyNotString rest 1
      | rest => fault .expectedCommaOrBrace rest 1

/-- The end of a list with an item for every field. -/
def closing (record : α) (cs : List Char) : Reading α :=
  match skipGaps cs with
  | [] => fault .endInList [] 0
  | ']' :: rest => .ok (record, rest)
  | ',' :: rest =>
    match skipGaps rest with
    | ']' :: rest => fault .trailingComma (']' :: rest) 1
    | rest => fault .trailingText rest 1
  | rest => fault .trailingText rest 1

/-- Reads the items of a list behind the first one, each with the comma before it. -/
def itemsTail (record : α) : List (String × (α → List Char → Reading α)) → List Char → Reading α
  | [], cs => closing record cs
  | field :: fields, cs =>
    match skipGaps cs with
    | [] => fault .endInList [] 0
    | ']' :: rest => .ok (record, rest)
    | ',' :: rest =>
      match skipGaps rest with
      | [] => fault .endInValue [] 0
      | ']' :: rest => fault .trailingComma (']' :: rest) 1
      | rest =>
        match field.2 record rest with
        | .error f => .error f
        | .ok (record, rest) => itemsTail record fields rest
    | rest => fault .expectedCommaOrBracket rest 1

/-- Reads a list of the first fields, from behind its opening bracket. -/
def items (cs : List Char) : Reading α :=
  match format.fields with
  | [] => closing format.default cs
  | field :: fields =>
    match skipGaps cs with
    | [] => fault .endInList [] 0
    | ']' :: rest => .ok (format.default, rest)
    | rest =>
      match field.2 format.default rest with
      | .error f => .error f
      | .ok (record, rest) => itemsTail record fields rest

/-- Reads a record. -/
def record (cs : List Char) : Reading α :=
  match skipGaps cs with
  | '[' :: rest => format.items rest
  | '{' :: rest =>
    match skipGaps rest with
    | [] => fault .endInObject [] 0
    | '}' :: rest => .ok (format.default, rest)
    | '"' :: rest => format.entries format.default [] (stepsFor rest) rest
    | rest => fault .keyNotString rest 1
  | cs => mismatch format.kind cs

/-- The record that a data text spells. -/
def ofText (s : String) : Except LocatedFault α := Reading.fromText format.record s

end RecordFormat

end Runbook

import Runbook.Yaml.Node

/-!
# Runbook.Yaml.Schema

The values of YAML documents, by the core schema: a plain scalar can be null, a boolean, an integer
in one of four bases, or a float, and is a string otherwise; quoted and block scalars are strings.
The keys of a mapping are always strings, in the spelling of the text.
-/

namespace Runbook.Yaml

/-- The deepest nesting of sequences and mappings. -/
def maxDepth : Nat := 128

/-- A run of decimal digits with a needless zero at its front, which is a string. -/
def hasNeedlessZero (cs : List Char) : Bool :=
  let digits := (splitSign cs).2
  1 < digits.length && digits.head? = some '0' && digits.all Char.isDigit

/-- Digits in a base up to sixteen. -/
def digitsInBase? (base : Nat) (cs : List Char) : Option Nat :=
  if cs.isEmpty then none
  else
    cs.foldlM (fun n c => (Reading.hexDigit? c).bind fun d =>
      if d < base then some (n * base + d) else none) 0

/-- The value of an unsigned whole number: decimal, or with the mark of another base. -/
def magnitude? (cs : List Char) : Option Nat :=
  match cs with
  | '0' :: 'x' :: digits => digitsInBase? 16 digits
  | '0' :: 'o' :: digits => digitsInBase? 8 digits
  | '0' :: 'b' :: digits => digitsInBase? 2 digits
  | digits => digitsInBase? 10 digits

/-- What a scalar is by its spelling. -/
inductive Whole where
  /-- No whole number. -/
  | none
  /-- A whole number in range. -/
  | inRange (i : Int)
  /-- A whole number that is too large for a value. -/
  | tooLarge

/-- The whole number that a plain scalar spells. A number of more than 128 bits is no whole number
any more. -/
def whole (cs : List Char) : Whole :=
  if hasNeedlessZero cs then .none
  else
    match cs with
    | '-' :: digits =>
      match magnitude? digits with
      | some n =>
        if n ≤ Text.signedLimit then .inRange (-(n : Int))
        else if n ≤ twoTo 127 then .tooLarge else .none
      | none => .none
    | cs =>
      match magnitude? (splitSign cs).2 with
      | some n =>
        if n < Text.wordLimit then .inRange n else if n < twoTo 128 then .tooLarge else .none
      | none => .none

/-- The words for infinity; with a minus sign they are words too. -/
def infinityWords : List String := [".inf", ".Inf", ".INF"]

/-- The words for no number. -/
def undefinedWords : List String := [".nan", ".NaN", ".NAN"]

/-- The value of a float, where null stands for what is no finite number. -/
def float? (cs : List Char) : Option Value :=
  let positive := if cs.head? = some '+' then cs.drop 1 else cs
  let word := String.ofList (if cs.head? = some '-' then cs.drop 1 else positive)
  if infinityWords.contains word || undefinedWords.contains (String.ofList cs) then some .null
  else
    let (negative, rest) := splitSign cs
    match decimalParts? rest with
    | none => none
    | some parts =>
      let code := Double.codeOfDecimal (Text.valueOfDigits parts.digits) parts.exponent
      if code < Double.infinityCode then some (.number (.float ⟨negative, code⟩)) else none

/-- The value of a plain scalar, or nothing if it is a number out of range. -/
def plainValue (text : String) : Option Value :=
  if text = "" ∨ text = "~" ∨ text = "null" ∨ text = "Null" ∨ text = "NULL" then some .null
  else if text = "true" ∨ text = "True" ∨ text = "TRUE" then some (.bool true)
  else if text = "false" ∨ text = "False" ∨ text = "FALSE" then some (.bool false)
  else
    match whole text.toList with
    | .inRange i => some (.number (.int i))
    | .tooLarge => none
    | .none =>
      if hasNeedlessZero text.toList then some (.string text)
      else some ((float? text.toList).getD (.string text))

/-- The front of the names of the schema's own tags. -/
def schemaTag (name : String) : String := "tag:yaml.org,2002:" ++ name

/-- The value of a scalar without a tag. -/
def untaggedValue (text : String) (isPlain : Bool) : Option Value :=
  if isPlain then plainValue text else some (.string text)

/-- The value of a scalar. A tag of the schema asks for a kind of value; the kind has to fit. Tags
of the document's own have no value, and a tag without a name says nothing. -/
def scalarValue (text : String) (isPlain : Bool) : Option String → Option Value
  | none => untaggedValue text isPlain
  | some tag =>
    if tag = schemaTag "null" then
      (plainValue text).bind fun v => match v with
        | .null => if text = "" then none else some .null
        | _ => none
    else if tag = schemaTag "bool" then
      (plainValue text).bind fun v => match v with
        | .bool b => some (.bool b)
        | _ => none
    else if tag = schemaTag "int" then
      match whole text.toList with
      | .inRange i => some (.number (.int i))
      | _ => none
    else if tag = schemaTag "float" then float? text.toList
    else if tag.toList.head? = some '!' then
      if tag = "!" then untaggedValue text isPlain else none
    else some (.string text)

/-- Is the tag one of the document's own? -/
def isOwnTag (tag : Option String) : Bool := tag.any fun t => t.toList.head? = some '!' && t ≠ "!"

mutual

/-- The value of a node; `depth` levels of nesting are left. -/
def valueOf : Nat → Node → Option Value
  | _, .scalar text isPlain tag => scalarValue text isPlain tag
  | 0, .sequence _ _ => none
  | 0, .mapping _ _ => none
  | depth + 1, .sequence items tag =>
    if isOwnTag tag then none else (itemsOf depth items).map .array
  | depth + 1, .mapping entries tag =>
    if isOwnTag tag then none
    else (entriesOf depth entries).map fun es => .object (Entries.ofBindings es)
  | depth, .alias target _ => valueOf depth target
termination_by structural _ n => n

/-- The values of some nodes. -/
def itemsOf (depth : Nat) : List Node → Option (List Value)
  | [] => some []
  | n :: ns => do
    let v ← valueOf depth n
    let vs ← itemsOf depth ns
    some (v :: vs)
termination_by structural ns => ns

/-- The values of some entries, whose keys are scalars. -/
def entriesOf (depth : Nat) : List (Node × Node) → Option (List (String × Value))
  | [] => some []
  | (k, n) :: es => do
    let key ← k.key?
    let v ← valueOf depth n
    let vs ← entriesOf depth es
    some ((key, v) :: vs)
termination_by structural es => es

end

/-- The value of a YAML text, if it is well formed and its aliases do not take too many jumps. Of a
fault no more is told than that there is one: its description and its place are left out. -/
def read (text : String) : Option Value := do
  let tokens ← Token.ofText? text.toList
  let root ← Node.ofTokens? tokens
  if root.isWithinLimit then valueOf maxDepth root else none

end Runbook.Yaml

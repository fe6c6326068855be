import Runbook.Text.Search
import Runbook.Value.Writing
import Runbook.Number.Reading
import Runbook.Path

/-!
# Runbook.Expression.Basic

Expressions and their meaning. An expression is a tree of logical operators, comparisons,
membership tests, literals and references; `Expression.evaluate` gives its value over a mapping.
Operands are evaluated from left to right and only as far as the value needs, and the first error
met is the result.

A text that is no expression is read as a tree with a `malformed` leaf, so an error behind an
operand that decides the value is never met.
-/

namespace Runbook

/-- Equality for conditions: the same data, numbers of equal measure, or scalars with the same
text. -/
def Value.looselyEqual (left right : Value) : Bool :=
  if left.same right then true
  else
    match left, right with
    | .number m, .number n => m.measure.le n.measure && n.measure.le m.measure
    | .array _, _ | .object _, _ | _, .array _ | _, .object _ => false
    | _, _ => left.display == right.display

/-- The place of a value on the scale of comparisons: of a number, or of a string that spells
one. -/
def Value.measure? : Value → Option Measure
  | .number n => some n.measure
  | .string s => Measure.ofText? (Text.trim s.toList)
  | _ => none

/-- Does a value hold another: as an item of a list, as a part of a string, or as a key of a
mapping? -/
def Value.holds (haystack needle : Value) : Bool :=
  match haystack with
  | .array items => items.any fun item => item.looselyEqual needle
  | .string s => Text.contains s needle.display
  | .object entries => Entries.has needle.display entries
  | _ => false

/-- Null, false, the zeros, and whatever is empty do not count as true. -/
def Value.isTruthy : Value → Bool
  | .null => false
  | .bool b => b
  | .number n => !n.isZero
  | .string s => !s.isEmpty
  | .array items => !items.isEmpty
  | .object entries => !entries.isEmpty

/-- A comparison operator. -/
inductive Comparison where
  | notEqual
  | equal
  | atLeast
  | atMost
  | greater
  | less
deriving DecidableEq

/-- The sign of a comparison. -/
def Comparison.sign : Comparison → String
  | notEqual => "!="
  | equal => "=="
  | atLeast => ">="
  | atMost => "<="
  | greater => ">"
  | less => "<"

/-- Why an expression has no value. -/
inductive ExpressionError where
  /-- The text is blank. -/
  | empty
  /-- A reference leads nowhere. -/
  | unknownReference (name : String)
  /-- An operator lacks an operand. -/
  | missingOperand (operator : String)
  /-- An ordering of values that are not both numeric. -/
  | notComparable (left right : String)
  /-- The text has no reading. -/
  | unsupported (text : String)
deriving DecidableEq

/-- The description of an error. -/
def ExpressionError.message : ExpressionError → String
  | empty => "expression cannot be empty"
  | unknownReference name => "unknown reference '" ++ name ++ "'"
  | missingOperand operator => "operator '" ++ operator ++ "' is missing an operand"
  | notComparable left right =>
    "cannot compare '" ++ left ++ "' and '" ++ right ++ "' numerically"
  | unsupported text => "unsupported expression '" ++ text ++ "'"

/-- The truth of a comparison. -/
def Comparison.test (op : Comparison) (left right : Value) : Except ExpressionError Bool :=
  match op with
  | .equal => .ok (left.looselyEqual right)
  | .notEqual => .ok (!left.looselyEqual right)
  | .atLeast => order fun m n => n.le m
  | .atMost => order fun m n => m.le n
  | .greater => order fun m n => n.lt m
  | .less => order fun m n => m.lt n
where
  /-- An ordering of two numeric values. -/
  order (test : Measure → Measure → Bool) : Except ExpressionError Bool :=
    match left.measure?, right.measure? with
    | some m, some n => .ok (test m n)
    | _, _ => .error (.notComparable left.display right.display)

/-- An expression. -/
inductive Expression where
  /-- True if any part is; parts behind the first true one are not evaluated. -/
  | anyOf (parts : List Expression)
  /-- True if all parts are; parts behind the first false one are not evaluated. -/
  | allOf (parts : List Expression)
  /-- The operand negated a number of times, which makes it a boolean. -/
  | negated (times : Nat) (operand : Expression)
  /-- A comparison. -/
  | compared (op : Comparison) (left right : Expression)
  /-- A membership test. -/
  | membership (haystack needle : Expression)
  /-- A value. -/
  | literal (value : Value)
  /-- A key or a path. -/
  | reference (name : String)
  /-- A text without a reading. -/
  | malformed (error : ExpressionError)

namespace Expression

/-- A reference is a key of the mapping or else a path into it. -/
def dereference (root : Entries) (name : String) : Option Value :=
  (Entries.get? name root).or (Path.resolve root name.toList)

/-- Inside an operator a reference that leads nowhere counts as null. -/
def asOperand : Except ExpressionError Value → Except ExpressionError Value
  | .error (.unknownReference _) => .ok .null
  | result => result

mutual

/-- The value of an expression over a mapping. -/
def evaluate (root : Entries) : Expression → Except ExpressionError Value
  | .anyOf parts => (evaluateAny root parts).map .bool
  | .allOf parts => (evaluateAll root parts).map .bool
  | .negated times operand =>
    (asOperand (evaluate root operand)).map fun v =>
      .bool (if times % 2 = 1 then !v.isTruthy else v.isTruthy)
  | .compared op left right =>
    match asOperand (evaluate root left) with
    | .error e => .error e
    | .ok l =>
      match asOperand (evaluate root right) with
      | .error e => .error e
      | .ok r => (op.test l r).map .bool
  | .membership haystack needle =>
    match asOperand (evaluate root haystack) with
    | .error e => .error e
    | .ok h => (asOperand (evaluate root needle)).map fun n => .bool (h.holds n)
  | .literal value => .ok value
  | .reference name =>
    match dereference root name with
    | some v => .ok v
    | none => .error (.unknownReference name)
  | .malformed e => .error e
termination_by structural e => e

/-- Is any part true? -/
def evaluateAny (root : Entries) : List Expression → Except ExpressionError Bool
  | [] => .ok false
  | e :: es =>
    match asOperand (evaluate root e) with
    | .error err => .error err
    | .ok v => if v.isTruthy then .ok true else evaluateAny root es
termination_by structural es => es

/-- Are all parts true? -/
def evaluateAll (root : Entries) : List Expression → Except ExpressionError Bool
  | [] => .ok true
  | e :: es =>
    match asOperand (evaluate root e) with
    | .error err => .error err
    | .ok v => if v.isTruthy then evaluateAll root es else .ok false
termination_by structural es => es

end

end Expression

end Runbook

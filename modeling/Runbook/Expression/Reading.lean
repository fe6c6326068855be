import Runbook.Expression.Basic
import Runbook.Expression.Scan
import Runbook.Value.Reading

/-!
# Runbook.Expression.Reading

Reading the text of an expression. The readings are tried in the order in which operators bind,
loosest first: brackets around the whole text, alternatives, conjunctions, negations, comparisons,
membership, literals, and references. Every part that is read in turn is shorter than the text, so
`Expression.ofText` allows one step for each character and one more.
-/

namespace Runbook

namespace Expression

/-- The comparisons in the order in which they are looked for. -/
def comparisons : List Comparison := [.notEqual, .equal, .atLeast, .atMost, .greater, .less]

/-- The first comparison, in the order of `comparisons`, that the text has at the top level, with
the text on both sides. -/
def comparison? (cs : List Char) : List Comparison → Option (Comparison × List Char × List Char)
  | [] => none
  | op :: ops =>
    match Scan.cutTop? op.sign.toList Scan.top cs with
    | some (left, right) => some (op, left, right)
    | none => comparison? cs ops

/-- The number of negations at the front of a text, and the text behind them. `steps` bounds the
number. An exclamation mark before an equals sign belongs to a comparison. -/
def negations : Nat → List Char → Nat × List Char
  | 0, cs => (0, cs)
  | steps + 1, cs =>
    match cs with
    | '!' :: '=' :: _ => (0, cs)
    | '!' :: rest =>
      let (n, inner) := negations steps (Text.trimStart rest)
      (n + 1, inner)
    | _ => (0, cs)

/-- A text that can only be a literal of the data format: it starts like a string, a list, a
mapping or a number, or is one of the three words. -/
def looksLikeData (cs : List Char) : Bool :=
  match cs with
  | [] => false
  | c :: _ =>
    c = '[' || c = '{' || c = '"' || c = '-' || c.isDigit ||
      cs = "null".toList || cs = "true".toList || cs = "false".toList

/-- The value of a literal: a text in single quotes without one inside, or a data text. -/
def literal? (cs : List Char) : Option Value :=
  match Path.unquoted? '\'' cs with
  | some inner =>
    if inner.contains '\'' then none else some (.string (String.ofList inner))
  | none => if looksLikeData cs then (Value.read (String.ofList cs)).toOption else none

/-- A literal or a reference. -/
def atom (cs : List Char) : Expression :=
  match literal? cs with
  | some value => .literal value
  | none =>
    if cs.any Text.isBlank then .malformed (.unsupported (String.ofList cs))
    else .reference (String.ofList cs)

/-- The start of a membership test. -/
def includesMark : List Char := ".includes(".toList

/-- A membership test from the texts before and after its mark, or why it is none. The closing
bracket of the test ends the text. -/
def membershipParts (cs before after : List Char) :
    Except ExpressionError (List Char × List Char) :=
  match Text.dropTail? [')'] after with
  | none => .error (.unsupported (String.ofList cs))
  | some argument =>
    if (Text.trim before).isEmpty || (Text.trim argument).isEmpty then
      .error (.missingOperand ".includes")
    else if !Scan.balanced 0 none (Text.trim argument) then
      .error (.unsupported (String.ofList cs))
    else .ok (Text.trim before, Text.trim argument)

/-- The expression that a text spells, read in at most `steps` nested steps. -/
def readSteps : Nat → List Char → Expression
  | 0, _ => .malformed .empty
  | steps + 1, text =>
    let cs := Text.trim text
    if cs.isEmpty then .malformed .empty
    else
      match Scan.unwrapped? cs with
      | some inner => readSteps steps inner
      | none =>
        match Scan.splitTop "||".toList cs with
        | first :: second :: more => .anyOf ((first :: second :: more).map (readSteps steps))
        | _ =>
          match Scan.splitTop "&&".toList cs with
          | first :: second :: more => .allOf ((first :: second :: more).map (readSteps steps))
          | _ =>
            match negations cs.length cs with
            | (times + 1, inner) =>
              if (Text.trim inner).isEmpty then .malformed (.missingOperand "!")
              else .negated (times + 1) (readSteps steps inner)
            | (0, _) =>
              match comparison? cs comparisons with
              | some (op, left, right) =>
                if (Text.trim left).isEmpty || (Text.trim right).isEmpty then
                  .malformed (.missingOperand op.sign)
                else .compared op (readSteps steps left) (readSteps steps right)
              | none =>
                match Scan.cutTop? includesMark Scan.top cs with
                | some (before, after) =>
                  match membershipParts cs before after with
                  | .error e => .malformed e
                  | .ok (haystack, needle) =>
                    .membership (readSteps steps haystack) (readSteps steps needle)
                | none => atom cs

/-- The expression that a text spells. -/
def ofText (cs : List Char) : Expression := readSteps (cs.length + 1) cs

/-- The value of an expression text over a mapping. -/
def evaluateText (root : Entries) (cs : List Char) : Except ExpressionError Value :=
  (ofText cs).evaluate root

end Expression

end Runbook

import Runbook.Resolver

/-!
# Runbook.Template

Texts with spans, such as `deploy {{ target }}`. A span is what stands between two opening braces
and the next two closing ones; an opening without a closing is plain text, and so is everything
behind it. `Template.pieces` takes a text apart, and writing the pieces again gives the text
(`source_pieces`).

Rendering replaces each span by its value, in one pass: the text of a value is never searched for
spans. `unresolved` lists the spans that a rendering replaces by nothing.
-/

namespace Runbook

/-- A part of a text with spans. -/
inductive Piece where
  /-- Text that stands for itself. -/
  | plain (cs : List Char)
  /-- The inside of a span. -/
  | span (inner : List Char)
deriving DecidableEq

namespace Template

/-- Two opening braces. -/
def opening : List Char := ['{', '{']

/-- Two closing braces. -/
def closing : List Char := ['}', '}']

/-! ## Taking a text apart -/

/-- The pieces of a text; `steps` bounds the number of spans. -/
def piecesSteps : Nat → List Char → List Piece
  | 0, cs => [.plain cs]
  | steps + 1, cs =>
    match Text.cut? opening cs with
    | none => [.plain cs]
    | some (before, after) =>
      match Text.cut? closing after with
      | none => [.plain cs]
      | some (inner, rest) => .plain before :: .span inner :: piecesSteps steps rest

/-- The pieces of a text. -/
def pieces (cs : List Char) : List Piece := piecesSteps cs.length cs

/-- The text of a piece. -/
def source : Piece → List Char
  | .plain cs => cs
  | .span inner => opening ++ inner ++ closing

/-- The pieces in order are the text. -/
theorem source_pieces (cs : List Char) : (pieces cs).flatMap source = cs := by
  suffices ∀ steps cs, (piecesSteps steps cs).flatMap source = cs from this _ _
  intro steps
  induction steps with
  | zero => intro cs; simp [piecesSteps, source]
  | succ steps ih =>
    intro cs
    rw [piecesSteps]
    split
    · simp [source]
    · next before after h =>
      split
      · simp [source]
      · next inner rest h' =>
        rw [Text.eq_of_cut? h, Text.eq_of_cut? h']
        simp [source, ih, List.append_assoc]

/-- The expressions of the spans of a text, without the blank ones. -/
def expressions (cs : List Char) : List (List Char) :=
  (pieces cs).filterMap fun
    | .plain _ => none
    | .span inner => if (Text.trim inner).isEmpty then none else some (Text.trim inner)

/-- The expression of a text that is one span and blanks around it. -/
def single? (cs : List Char) : Option (List Char) := do
  let inner ← Text.dropTail? closing (← Text.dropLead? opening (Text.trim cs))
  if Text.occurs opening inner || Text.occurs closing inner then none
  else return Text.trim inner

/-! ## Rendering -/

variable (resolver : Resolver) (context : Context)

/-- The text of a piece, where `write` gives the text of a span's value. -/
def writePiece (write : Option Value → List Char) : Piece → List Char
  | .plain cs => cs
  | .span inner => write (resolver.resolve context (Text.trim inner))

/-- A text with the display text of its spans; what does not resolve leaves nothing. -/
def render (cs : List Char) : List Char :=
  (pieces cs).flatMap (writePiece resolver context fun v => (v.elim "" Value.display).toList)

/-- A text with the data text of its spans, so that it can be read as an expression. -/
def renderData (cs : List Char) : List Char :=
  (pieces cs).flatMap (writePiece resolver context fun v => (v.getD .null).chars)

/-- `render` on strings. -/
def renderString (s : String) : String := String.ofList (render resolver context s.toList)

mutual

/-- A value with all its strings rendered; keys are left alone. -/
def renderValue : Value → Value
  | .string s => .string (renderString resolver context s)
  | .array items => .array (renderItems items)
  | .object entries => .object (renderEntries entries)
  | .null => .null
  | .bool b => .bool b
  | .number n => .number n
termination_by structural v => v

/-- The rendered items of a list. -/
def renderItems : List Value → List Value
  | [] => []
  | v :: vs => renderValue v :: renderItems vs
termination_by structural vs => vs

/-- The entries of a mapping with rendered values. -/
def renderEntries : List (String × Value) → Entries
  | [] => []
  | (k, v) :: es => (k, renderValue v) :: renderEntries es
termination_by structural es => es

end

/-- The value of a text that stands for a condition or for the source of a loop. A text that is one
span has the value of the span; with other spans it is read as an expression in which the spans are
literals, or else stands for its rendered form; without spans it is an expression. -/
def resolveText (cs : List Char) : Option Value :=
  match single? cs with
  | some expression => resolver.resolve context expression
  | none =>
    if Text.occurs opening cs then
      (resolver.resolve context (renderData resolver context cs)).or
        (some (.string (String.ofList (render resolver context cs))))
    else resolver.resolve context cs

/-! ## Spans without a value -/

/-- A span without a value: the place of its string, and its expression. -/
structure Unresolved where
  /-- The keys and indices that lead to the string. -/
  place : String
  /-- The expression of the span. -/
  expression : String

/-- The spans of a string that have no value. -/
def unresolvedIn (place : String) (s : String) : List Unresolved :=
  (expressions s.toList).filterMap fun e =>
    if (resolver.resolve context e).isNone then some ⟨place, String.ofList e⟩ else none

mutual

/-- The spans of a value that have no value of their own, in the order of the text. -/
def unresolved (place : String) : Value → List Unresolved
  | .string s => unresolvedIn resolver context place s
  | .array items => unresolvedItems place 0 items
  | .object entries => unresolvedEntries place entries
  | .null | .bool _ | .number _ => []
termination_by structural v => v

/-- The same for the items of a list from an index on. -/
def unresolvedItems (place : String) (index : Nat) : List Value → List Unresolved
  | [] => []
  | v :: vs =>
    unresolved (place ++ "[" ++ toString index ++ "]") v ++ unresolvedItems place (index + 1) vs
termination_by structural vs => vs

/-- The same for the entries of a mapping. -/
def unresolvedEntries (place : String) : List (String × Value) → List Unresolved
  | [] => []
  | (k, v) :: es => unresolved (place ++ "." ++ k) v ++ unresolvedEntries place es
termination_by structural es => es

end

end Template

end Runbook

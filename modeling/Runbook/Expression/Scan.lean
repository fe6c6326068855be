import Runbook.Text.Search
import Runbook.Text.Blank
import Runbook.Path

/-!
# Runbook.Expression.Scan

Finding operators at the top level of an expression text, which is outside quotes and outside
brackets of all three kinds. The scan notes the open quote and the number of open brackets
(`Scan`); a closing bracket without an opening one is passed over.

`cutTop?` cuts a text around the first operator at the top level (`eq_of_cutTop?`), `splitTop`
around all of them.
-/

namespace Runbook

/-- The state of a scan: the quote that is open, and how many brackets are. -/
structure Scan where
  /-- The quote whose end is awaited. -/
  quote : Option Char
  /-- The open brackets. -/
  depth : Nat
deriving DecidableEq

namespace Scan

/-- The state outside quotes and brackets. -/
def top : Scan := ⟨none, 0⟩

/-- An opening bracket of any kind. -/
def opens (c : Char) : Bool := c = '(' || c = '[' || c = '{'

/-- A closing bracket of any kind. -/
def closes (c : Char) : Bool := c = ')' || c = ']' || c = '}'

/-- The state behind a character. -/
def next (s : Scan) (c : Char) : Scan :=
  match s.quote with
  | some q => if c = q then ⟨none, s.depth⟩ else s
  | none =>
    if Path.isQuote c then ⟨some c, s.depth⟩
    else if opens c then ⟨none, s.depth + 1⟩
    else if closes c then ⟨none, s.depth - 1⟩
    else s

/-- A quote or a bracket, at which no operator starts. -/
def delimits (c : Char) : Bool := Path.isQuote c || opens c || closes c

/-- The text behind an operator that starts here at the top level. -/
def operator? (s : Scan) (operator : List Char) : List Char → Option (List Char)
  | [] => none
  | c :: cs => if s = top ∧ !delimits c then Text.dropLead? operator (c :: cs) else none

/-- The text before and after the first operator at the top level. -/
def cutTop? (operator : List Char) (s : Scan) : List Char → Option (List Char × List Char)
  | [] => none
  | c :: cs =>
    match s.operator? operator (c :: cs) with
    | some rest => some ([], rest)
    | none => (cutTop? operator (s.next c) cs).map fun (before, after) => (c :: before, after)

/-- The text around the operators at the top level; `steps` bounds the number of cuts. -/
def splitTopSteps (operator : List Char) : Nat → List Char → List (List Char)
  | 0, cs => [cs]
  | steps + 1, cs =>
    match cutTop? operator top cs with
    | none => [cs]
    | some (before, after) => before :: splitTopSteps operator steps after

/-- The text around the operators at the top level. -/
def splitTop (operator cs : List Char) : List (List Char) := splitTopSteps operator cs.length cs

/-- Do the round brackets of a text match? `depth` of them and possibly a quote are open already.
Quotes need no end. -/
def balanced (depth : Nat) (quote : Option Char) : List Char → Bool
  | [] => depth = 0
  | c :: cs =>
    match quote with
    | some q => balanced depth (if c = q then none else some q) cs
    | none =>
      if Path.isQuote c then balanced depth (some c) cs
      else if c = '(' then balanced (depth + 1) none cs
      else if c = ')' then
        if depth = 0 then false else balanced (depth - 1) none cs
      else balanced depth none cs

/-- The text inside round brackets that enclose all of it. -/
def unwrapped? : List Char → Option (List Char)
  | [] => none
  | c :: cs =>
    if c = '(' ∧ cs.getLast? = some ')' ∧ balanced 0 none cs.dropLast then some cs.dropLast
    else none

/-- The two sides of a cut, with the operator between them, are the whole text. -/
theorem eq_of_cutTop? {operator cs before after : List Char} {s : Scan}
    (h : cutTop? operator s cs = some (before, after)) : cs = before ++ operator ++ after := by
  induction cs generalizing s before with
  | nil => simp [cutTop?] at h
  | cons c cs ih =>
    rw [cutTop?] at h
    split at h
    · next rest hr =>
      obtain ⟨rfl, rfl⟩ := Prod.mk.injEq .. ▸ Option.some.injEq .. ▸ h
      rw [operator?] at hr
      split at hr
      · simpa using Text.dropLead?_eq_some_iff.1 hr
      · simp at hr
    · simp only [Option.map_eq_some_iff, Prod.mk.injEq, Prod.exists] at h
      obtain ⟨b, a, hc, rfl, rfl⟩ := h
      simp [ih hc]

end Scan

end Runbook

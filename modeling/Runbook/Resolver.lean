import Runbook.Context
import Runbook.Expression.Reading

/-!
# Runbook.Resolver

Resolving the text of a reference against a context. The basic resolver knows keys and paths. The
rich one evaluates expressions and falls back on the basic one where evaluation fails. A text that
resolves to nothing is no error.
-/

namespace Runbook

/-- A way to give values to texts. -/
structure Resolver where
  /-- How the resolver is called in settings and reports. -/
  name : String
  /-- The value of a text, if it has one. -/
  resolve : Context → List Char → Option Value

namespace Resolver

/-- A key of the context, or else a path into it. -/
def lookUp (context : Context) (text : List Char) : Option Value :=
  let cs := Text.trim text
  if cs.isEmpty then none
  else (context.get? (String.ofList cs)).or (Path.resolve context.entries cs)

/-- The value of an expression, or else what `lookUp` finds. -/
def evaluate (context : Context) (text : List Char) : Option Value :=
  match Expression.evaluateText context.entries text with
  | .ok v => some v
  | .error _ => lookUp context text

/-- Keys and paths only. -/
def basic : Resolver := ⟨"basic", lookUp⟩

/-- Expressions, with keys and paths as the last resort. -/
def rich : Resolver := ⟨"rich", evaluate⟩

end Resolver

end Runbook

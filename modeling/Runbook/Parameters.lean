import Runbook.Text.Blank
import Runbook.Text.Search
import Runbook.Value.Basic

/-!
# Runbook.Parameters

The parameters of a run, as they are written on a command line: as pairs, and as trailing words. The
words are `key=value`, `--key=value`, `--key value`, or a lone `--key`, which stands for the text
`true`. All values are texts; of several values for one key the last one counts, and a pair counts
more than a trailing word. What is no parameter is passed over.

The key of a pair is what stands before its first equals sign, trimmed and not empty.
-/

namespace Runbook.Parameters

/-- The key and the value on the two sides of the first equals sign; the key is trimmed and must not
be empty. -/
def pair? (cs : List Char) : Option (String × Value) :=
  match Text.cut? ['='] cs with
  | none => none
  | some (key, value) =>
    if (Text.trim key).isEmpty then none
    else some (String.ofList (Text.trim key), .string (String.ofList value))

/-- The two dashes in front of a key. -/
def dashes : List Char := "--".toList

/-- The value of a key that stands alone. -/
def flagValue : Value := .string "true"

/-- The bindings that trailing words spell, in order. -/
def bindings : List String → List (String × Value)
  | [] => []
  | word :: rest =>
    match Text.dropLead? dashes word.toList with
    | none => (pair? word.toList).toList ++ bindings rest
    | some [] => bindings rest
    | some key =>
      match pair? key, rest with
      | some binding, rest => binding :: bindings rest
      | none, [] => [(String.ofList key, flagValue)]
      | none, value :: rest =>
        if value.toList.head? = some '-' then
          (String.ofList key, flagValue) :: bindings (value :: rest)
        else (String.ofList key, .string value) :: bindings rest

/-- The parameters that pairs and trailing words spell. -/
def ofWords (pairs words : List String) : Entries :=
  Entries.ofBindings (bindings words ++ pairs.filterMap fun p => pair? p.toList)

end Runbook.Parameters

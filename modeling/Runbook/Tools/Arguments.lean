import Runbook.Report
import Runbook.Text.Blank
import Runbook.Text.Numeral

/-!
# Runbook.Tools.Arguments

Reading the arguments of the built-in capabilities. An argument that is null counts as absent.
-/

namespace Runbook.Tools

/-- Why arguments are not accepted. -/
inductive ArgumentError where
  /-- A needed argument is absent. -/
  | missing (name : String)
  /-- A number that is no count. -/
  | notCount (name : String)
  /-- A value that spells no count. -/
  | notCountText (name found : String)
  /-- A value that is no mapping. -/
  | notMapping (name found : String)
deriving DecidableEq

/-- The description of an error. -/
def ArgumentError.message : ArgumentError → String
  | missing name => "missing required argument '" ++ name ++ "'"
  | notCount name => "argument '" ++ name ++ "' must be a non-negative integer"
  | notCountText name found =>
    "argument '" ++ name ++ "' must be a non-negative integer, got " ++ found
  | notMapping name found => "argument '" ++ name ++ "' must be a mapping, got " ++ found

/-- An argument that is there. -/
def present? (args : Entries) (name : String) : Option Value :=
  match Entries.get? name args with
  | none | some .null => none
  | some v => some v

/-- The text of a needed argument. -/
def requiredText (args : Entries) (name : String) : Except ArgumentError String :=
  match present? args name with
  | some v => .ok v.display
  | none => .error (.missing name)

/-- A count, given as a number or as text; blank text counts as absent. -/
def optionalCount (args : Entries) (name : String) : Except ArgumentError (Option Nat) :=
  match present? args name with
  | none => .ok none
  | some (.number (.int i)) => if i < 0 then .error (.notCount name) else .ok (some i.toNat)
  | some (.number (.float _)) => .error (.notCount name)
  | some (.string s) =>
    let cs := Text.trim s.toList
    if cs.isEmpty then .ok none
    else
      match Text.natural? Text.wordLimit cs with
      | some n => .ok (some n)
      | none => .error (.notCountText name ("'" ++ s ++ "'"))
  | some v => .error (.notCountText name v.text)

/-- A mapping; without it there are no entries. -/
def optionalEntries (args : Entries) (name : String) : Except ArgumentError Entries :=
  match present? args name with
  | none => .ok []
  | some (.object entries) => .ok entries
  | some v => .error (.notMapping name v.text)

end Runbook.Tools

import Runbook.Resolver
import Runbook.Value.RecordText

/-!
# Runbook.Settings.Basic

The settings of the command line and their text. `Settings.ofText` reads them from a data text in
which every field may be left out, and `Settings.pretty` writes all of them.
-/

namespace Runbook

/-- How the expressions of a workflow are evaluated. -/
inductive Engine where
  /-- With operators. -/
  | rich
  /-- Keys and paths only. -/
  | basic
deriving DecidableEq

namespace Engine

/-- The resolver of an engine. -/
def resolver : Engine → Resolver
  | rich => .rich
  | basic => .basic

/-- The name of an engine. -/
def name (engine : Engine) : String := engine.resolver.name

/-- The engines under their names. -/
def choices : List (String × Engine) := [rich, basic].map fun engine => (engine.name, engine)

/-- The engine that a text names, in any case and with blanks around it. -/
def ofText? (s : String) : Option Engine :=
  (choices.find? fun c => Text.sameIgnoringCase (Text.trimmed s) c.1).map (·.2)

end Engine

/-- The settings of the command line. -/
structure Settings where
  /-- How expressions are evaluated. -/
  engine : Engine
  /-- How much is logged. -/
  logLevel : String
  /-- The directory that nested workflow files have to be in. -/
  workspaceRoot : Option String
  /-- The text of the delay between attempts of a step that names none. -/
  retryDelay : Option String
deriving DecidableEq

namespace Settings

/-- The settings where no other ones are given. -/
def default : Settings := ⟨.rich, "info", none, none⟩

/-- Reads a field with a reader and assigns it. -/
def assigning {α : Type} (field : List Char → Reading α) (assign : Settings → α → Settings)
    (settings : Settings) (cs : List Char) : Reading Settings :=
  (field cs).map fun (x, rest) => (assign settings x, rest)

/-- The fields of settings. -/
def format : RecordFormat Settings where
  kind := "struct Settings"
  default := default
  fields := [
    ("expression_engine", assigning (Reading.choiceField Engine.choices) fun settings x =>
      { settings with engine := x }),
    ("log_level", assigning (Reading.textField "a string") fun settings x =>
      { settings with logLevel := x }),
    ("workspace_root", assigning (Reading.optionalField (Reading.textField "path string"))
      fun settings x => { settings with workspaceRoot := x }),
    ("default_retry_delay", assigning (Reading.optionalField (Reading.textField "a string"))
      fun settings x => { settings with retryDelay := x })]

/-- The settings that a data text spells. -/
def ofText (s : String) : Except LocatedFault Settings := format.ofText s

/-- The settings as a mapping. -/
def toValue (settings : Settings) : Value :=
  .object [("expression_engine", .string settings.engine.name),
    ("log_level", .string settings.logLevel),
    ("workspace_root", .optionalText settings.workspaceRoot),
    ("default_retry_delay", .optionalText settings.retryDelay)]

/-- The indented text of the settings. -/
def pretty (settings : Settings) : String := settings.toValue.pretty

end Settings

end Runbook

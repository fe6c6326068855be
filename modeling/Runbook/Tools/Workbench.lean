import Runbook.Tools.Sessions
import Runbook.Tools.Texts
import Runbook.WorkflowFile

/-!
# Runbook.Tools.Workbench

The registry of the built-in capabilities. They share a workbench: the open sessions and the number
of nested runs. Two of them read workflow files, and only inside the workspace.

A nested run uses the same capabilities. It may hold another nested run, down to `maxNestedRuns`;
`registryAt` builds the registry for each number of runs that may still be nested.
-/

namespace Runbook

/-- What the built-in capabilities share. -/
structure Workbench where
  /-- The open sessions. -/
  sessions : SessionStore
  /-- The nested runs that are going on. -/
  nesting : Nat
  /-- The current time, as text. -/
  now : String

/-- How runs are made, and what they can see. -/
structure Workspace where
  /-- The directory that workflow files have to be in. -/
  root : List Char
  /-- How texts get their values. -/
  resolver : Resolver
  /-- The delay between attempts of a step that names none. -/
  defaultDelay : Option Delay
  /-- The files. -/
  files : FileSystem
  /-- Is there a registry for nested runs? -/
  allowsNesting : Bool

namespace Workspace

variable (workspace : Workspace)

/-- An interpreter over a registry. -/
def interpreter {World : Type} (registry : Registry World) : Interpreter World :=
  ⟨registry, workspace.resolver, none, workspace.defaultDelay⟩

/-- The failure for a path outside the workspace. -/
def escapeReport (path : String) : Report :=
  .failed (.string ("path escapes workspace: " ++ path))

/-- The path argument: its text, and its normal form if it stays inside the workspace. -/
def pathArgument (args : Entries) : Except Tools.ArgumentError (String × Option PlainPath) :=
  (Tools.requiredText args "path").map fun path =>
    (path, FilePath.within? workspace.root path.toList)

/-- The verdict on a workflow file. -/
def workflowValidate (args : Entries) : Except Tools.ArgumentError Report :=
  (workspace.pathArgument args).map fun
    | (path, none) => escapeReport path
    | (_, some target) => WorkflowFile.validate workspace.files target.chars

/-- How many runs may be nested. -/
def maxNestedRuns : Nat := 8

/-- Runs a workflow file with the given registry. -/
def runNested (registry : Registry Workbench) (target : PlainPath) (params : Entries)
    (bench : Workbench) : Report × Workbench :=
  let inner := { bench with nesting := bench.nesting + 1 }
  let (outcome, inner) :=
    WorkflowFile.run (workspace.interpreter registry) workspace.files target.chars params inner
  (outcome.toReport, { inner with nesting := inner.nesting - 1 })

/-- Runs a workflow file, unless too many runs are nested already. -/
def workflowRun (registry : Registry Workbench) (args : Entries) (bench : Workbench) :
    Except String Report × Workbench :=
  match workspace.pathArgument args with
  | .error e => (.error e.message, bench)
  | .ok (path, target) =>
    match Tools.optionalEntries args "params" with
    | .error e => (.error e.message, bench)
    | .ok params =>
      match target with
      | none => (.ok (escapeReport path), bench)
      | some target =>
        if !workspace.allowsNesting then
          (.ok (.failed (.string "registry is required to execute workflow")), bench)
        else if maxNestedRuns ≤ bench.nesting then
          (.ok (.failed (.string ("workflow nesting exceeds " ++ toString maxNestedRuns ++
            " levels: " ++ path))), bench)
        else
          let (report, bench) := workspace.runNested registry target params bench
          (.ok report, bench)

/-- A capability on the sessions of the workbench. -/
def onSessions (description : String)
    (act : String → Entries → SessionStore → Except String Report × SessionStore) :
    Capability Workbench where
  description := description
  invoke args bench :=
    let (result, sessions) := act bench.now args bench.sessions
    (result, { bench with sessions := sessions })

/-- The built-in capabilities, where nested runs use the given registry. -/
def registryOver (nested : Registry Workbench) : Registry Workbench :=
  [("echo", Tools.pureTool "Return the 'text' argument as output." fun args =>
      .ok (Tools.echo args)),
    ("analyze", Tools.pureTool "Return simple text statistics." Tools.analyze),
    ("summarize", Tools.pureTool "Summarize text by keeping its leading words." Tools.summarize),
    ("fail", Tools.pureTool "Always fail, reporting the 'message' argument." fun args =>
      .ok (Tools.fail args)),
    ("session_open", onSessions "Open a session and return its handle." Tools.sessionOpen),
    ("session_write", onSessions "Append 'text' to an open session." fun _ => Tools.sessionWrite),
    ("session_read", onSessions "Return every entry of an open session." fun _ =>
      Tools.sessionRead),
    ("session_close", onSessions "Close a session and return its final contents." fun _ =>
      Tools.sessionClose),
    ("workflow_validate", Tools.pureTool "Validate a workflow file inside the workspace."
      workspace.workflowValidate),
    ("workflow_run", ⟨"Execute a workflow file inside the workspace using the tool registry.",
      workspace.workflowRun nested⟩)]

/-- The built-in capabilities, where `levels` more runs may be nested. -/
def registryAt : Nat → Registry Workbench
  | 0 => workspace.registryOver []
  | levels + 1 => workspace.registryOver (registryAt levels)

/-- The built-in capabilities. -/
def registry : Registry Workbench := workspace.registryAt maxNestedRuns

end Workspace

/-- A workbench without sessions. -/
def Workbench.fresh (now : String) : Workbench := ⟨.empty, 0, now⟩

end Runbook

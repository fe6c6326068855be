import Runbook.CommandLine.Command
import Runbook.Parameters
import Runbook.Redaction
import Runbook.Settings.Loading
import Runbook.Tools.Workbench

/-!
# Runbook.CommandLine.Reply

Carrying out a command. A `Reply` is what the command prints and whether it succeeded. Everything
that comes out of a workflow or a capability is redacted before it is printed.
-/

namespace Runbook.CommandLine

/-- What a command has to say. -/
structure Reply where
  /-- Did it succeed? -/
  success : Bool
  /-- The lines that it prints. -/
  lines : List String

/-- The text of a reply. -/
def Reply.text (reply : Reply) : String := String.join (reply.lines.map (· ++ "\n"))

/-- Where a command is carried out. -/
structure Scene where
  /-- The settings in use. -/
  settings : Settings
  /-- The files. -/
  files : FileSystem
  /-- The current time, as text. -/
  now : String

/-- The nearest directory with a repository above a file, or else the directory of the file. -/
def detectRoot (files : FileSystem) (path : List Char) : List Char :=
  let directory := (FilePath.parent? path).getD ['.']
  ((FilePath.ancestors directory).find? fun candidate =>
    files.exists? (FilePath.join candidate ".git".toList)).getD directory

namespace Scene

variable (scene : Scene)

/-- The workspace with a root. The root in the settings counts more. -/
def workspace (root : List Char) : Workspace where
  root := (scene.settings.workspaceRoot.map String.toList).getD root
  resolver := scene.settings.engine.resolver
  defaultDelay := scene.settings.retryDelay.bind fun s => Delay.ofText? s.toList
  files := scene.files
  allowsNesting := true

/-- The workspace of a command without a workflow file. -/
def currentWorkspace : Workspace := scene.workspace scene.files.currentPath

/-- A report as indented data, redacted. -/
def shown (report : Report) : String := Redaction.redact report.toValue.pretty

/-- The text of a truth value. -/
def truthText (b : Bool) : String := String.ofList (Value.boolText b)

/-- Runs a workflow file. -/
def run (path : List Char) (params : Entries) (asData : Bool) : Reply :=
  let path := FilePath.join scene.files.currentPath path
  let workspace := scene.workspace (detectRoot scene.files path)
  let outcome := (WorkflowFile.run (workspace.interpreter workspace.registry) scene.files path
    params (.fresh scene.now)).1
  let details :=
    if asData then [shown outcome.toReport]
    else
      outcome.trace.transcript.map Redaction.redact ++
        (if outcome.success then [] else [Redaction.redact outcome.toReport.outputText])
  ⟨outcome.success, ("workflow success=" ++ truthText outcome.success) :: details⟩

/-- Checks a workflow file. -/
def validate (path : List Char) : Reply :=
  let verdict := WorkflowFile.validate scene.files path
  let finding :=
    if verdict.success then
      let count := (verdict.metadata.bind (Entries.get? "step_count")).getD (.ofNat 0)
      "valid (" ++ count.display ++ " steps)"
    else Redaction.redact verdict.outputText
  ⟨verdict.success, [String.ofList path ++ ": " ++ finding]⟩

/-- Lists the capabilities by name. -/
def tools : Reply :=
  let listed := scene.currentWorkspace.registry.mergeSort fun a b => !decide (b.1 < a.1)
  ⟨true, "Available tools:" :: listed.map fun tool => "- " ++ tool.1 ++ ": " ++ tool.2.description⟩

/-- The arguments that a text spells, or what is wrong with it. -/
def toolArguments (text : String) : Except String Entries :=
  match Value.read text with
  | .error fault => .error ("invalid JSON args: " ++ fault.message)
  | .ok (.object args) => .ok args
  | .ok v => .error ("tool arguments must be a JSON object, got " ++ v.text)

/-- Invokes a capability. A raised error is shown as a failure. -/
def invoke (name args : String) : Reply :=
  match Registry.find? name scene.currentWorkspace.registry with
  | none => ⟨false, ["unknown tool '" ++ name ++ "'"]⟩
  | some capability =>
    match toolArguments args with
    | .error text => ⟨false, [text]⟩
    | .ok args =>
      let report := Report.ofResult (capability.invoke args (.fresh scene.now)).1
      ⟨report.success, [shown report]⟩

/-- Carries out a command. -/
def reply : Command → Reply
  | .run path pairs asData words =>
    scene.run path.toList (Parameters.ofWords pairs words) asData
  | .validate path => scene.validate path.toList
  | .tools => scene.tools
  | .invoke name args => scene.invoke name args
  | .config => ⟨true, [scene.settings.pretty]⟩

end Scene

end Runbook.CommandLine

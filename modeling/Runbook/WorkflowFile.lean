import Runbook.File.System
import Runbook.Run.Interpreter
import Runbook.Yaml.Schema

/-!
# Runbook.WorkflowFile

Workflow documents in files. A file whose extension says so is read as YAML and any other as a data
text. Checking a file and running it go through the same loading (`loadExisting`), so both meet the
same faults.
-/

namespace Runbook

/-- A document and where it was found. -/
structure WorkflowFile where
  /-- The path of the file. -/
  source : List Char
  /-- The document. -/
  document : Value

namespace WorkflowFile

/-- Why a document cannot be loaded. -/
inductive LoadFault where
  /-- The file cannot be read. -/
  | unreadable (path : List Char) (fault : FileFault)
  /-- The text is no data text. -/
  | badData (path : List Char) (fault : LocatedFault)
  /-- The text is no YAML. -/
  | badYaml (path : List Char)

/-- The description of a fault. What is wrong with a YAML text is not told, so that part of the
description is always the same. -/
def LoadFault.message : LoadFault → String
  | unreadable path fault =>
    "Failed to read workflow file: " ++ String.ofList path ++ ": " ++ fault.message
  | badData path fault =>
    "Failed to parse JSON workflow: " ++ String.ofList path ++ ": " ++ fault.message
  | badYaml path => "Failed to parse YAML workflow: " ++ String.ofList path ++ ": <yaml error>"

/-- Is the file to be read as YAML? -/
def isYaml (path : List Char) : Bool :=
  (FilePath.extension? path).any fun e =>
    let e := String.ofList e
    Text.sameIgnoringCase e "yaml" || Text.sameIgnoringCase e "yml"

/-- The number of steps, if there is a list of them. -/
def stepCount? (file : WorkflowFile) : Option Nat :=
  ((file.document.member? "steps").bind Value.items?).map List.length

/-- Loads a document. -/
def load (files : FileSystem) (path : List Char) : Except LoadFault WorkflowFile :=
  match files.read path with
  | .error fault => .error (.unreadable path fault)
  | .ok text =>
    if isYaml path then
      match Yaml.read text with
      | some document => .ok ⟨path, document⟩
      | none => .error (.badYaml path)
    else
      match Value.read text with
      | .ok document => .ok ⟨path, document⟩
      | .error fault => .error (.badData path fault)

/-- What is said of a path without a file. -/
def notFoundText : String := "workflow file not found"

/-- Loads a document, where a failure is the text that is reported. -/
def loadExisting (files : FileSystem) (path : List Char) : Except String WorkflowFile :=
  if files.exists? path then
    match load files path with
    | .ok file => .ok file
    | .error fault => .error fault.message
  else .error notFoundText

/-- The verdict on the document in a file. -/
def validate (files : FileSystem) (path : List Char) : Report :=
  match loadExisting files path with
  | .ok file => Document.verdict (some file.document)
  | .error text => .failed (.string text)

/-- Runs the document in a file. A file without a workflow is rejected before the run. -/
def run {World : Type} (interpreter : Interpreter World) (files : FileSystem) (path : List Char)
    (params : Entries) (world : World) : Outcome × World :=
  match loadExisting files path with
  | .error text => (.rejected (.string text) params, world)
  | .ok file =>
    match Document.steps (some file.document) with
    | .error defect => (.rejected (.string defect.message) params, world)
    | .ok _ => interpreter.execute file.document params world

end WorkflowFile

end Runbook

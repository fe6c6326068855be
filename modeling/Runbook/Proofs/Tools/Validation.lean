import Runbook.Proofs.Tools.Nesting
import Runbook.Proofs.Value.RoundTrip

/-!
# Runbook.Proofs.Tools.Validation

Checking a workflow file and running it. A path either leads to a file with a workflow in it
(`WorkflowFile.Holds`), or there is something to be said of it (`WorkflowFile.Lacks`): it leads to
no file, the file cannot be read or is no data text, or its document has another shape. The check
and the run of a file go through all of this on their own, and come to the same.

So the verdict of the built-in capability that checks files tells what the one that runs them will
come to (`Workspace.predicts`): it raises the same error, or it declines with the same output before
anything is invoked, or it executes the document that was checked
(`Workspace.run_follows_verdict`).
-/

namespace Runbook

/-! ## files with a workflow and without one -/

namespace WorkflowFile

variable {files : FileSystem} {path : List Char}

/-- There is no workflow at the path, and this is what is said of it. -/
inductive Lacks (files : FileSystem) (path : List Char) : String → Prop
  | absent (h : files.exists? path = false) : Lacks files path "workflow file not found"
  | faulty {fault : LoadFault} (hexists : files.exists? path = true)
      (h : load files path = .error fault) : Lacks files path fault.message
  | misshapen {file : WorkflowFile} {defect : Document.Defect}
      (hexists : files.exists? path = true) (hload : load files path = .ok file)
      (h : Document.steps (some file.document) = .error defect) : Lacks files path defect.message

/-- The file at the path holds a workflow with some steps. -/
structure Holds (files : FileSystem) (path : List Char) (file : WorkflowFile)
    (steps : List Value) : Prop where
  exists? : files.exists? path = true
  load : WorkflowFile.load files path = .ok file
  steps : Document.steps (some file.document) = .ok steps

/-- A file lacks a workflow or holds one. -/
theorem lacks_or_holds (files : FileSystem) (path : List Char) :
    (∃ output, Lacks files path output) ∨ ∃ file steps, Holds files path file steps := by
  cases hexists : files.exists? path with
  | false => exact .inl ⟨_, .absent hexists⟩
  | true =>
      cases hload : load files path with
      | error fault => exact .inl ⟨_, .faulty hexists hload⟩
      | ok file =>
          cases hsteps : Document.steps (some file.document) with
          | error defect => exact .inl ⟨_, .misshapen hexists hload hsteps⟩
          | ok steps => exact .inr ⟨file, steps, hexists, hload, hsteps⟩

section Lacks

variable {output : String} (h : Lacks files path output)
include h

/-- Validation reports what the file lacks. -/
theorem Lacks.validate_eq : validate files path = .failed (.string output) := by
  cases h with
  | absent h => simp [validate, loadExisting, h, notFoundText]
  | faulty hexists h => simp [validate, loadExisting, hexists, h]
  | misshapen hexists hload h => simp [validate, loadExisting, hexists, hload, Document.verdict, h]

/-- Without a workflow nothing is run, and the world stays as it is. -/
theorem Lacks.run_eq {World : Type} (interpreter : Interpreter World) (params : Entries)
    (world : World) :
    run interpreter files path params world = (.rejected (.string output) params, world) := by
  cases h with
  | absent h => simp [run, loadExisting, h, notFoundText]
  | faulty hexists h => simp [run, loadExisting, hexists, h]
  | misshapen hexists hload h => simp [run, loadExisting, hexists, hload, h]

end Lacks

section Holds

variable {file : WorkflowFile} {steps : List Value} (h : Holds files path file steps)
include h

/-- Validation of a workflow reports the number of its steps. -/
theorem Holds.validate_eq :
    validate files path = ⟨.string "valid", true, some [("step_count", .ofNat steps.length)]⟩ := by
  simp [validate, loadExisting, h.exists?, h.load, Document.verdict, h.steps]

/-- A run of the file executes the workflow that it holds. -/
theorem Holds.run_eq {World : Type} (interpreter : Interpreter World) (params : Entries)
    (world : World) :
    run interpreter files path params world = interpreter.execute file.document params world := by
  simp [run, loadExisting, h.exists?, h.load, h.steps]

end Holds

end WorkflowFile

/-! ## the built-in capabilities -/

namespace Workspace

variable (workspace : Workspace)

/-- The built-in capability that checks files. -/
def validator : Capability Workbench :=
  Tools.pureTool "Validate a workflow file inside the workspace." workspace.workflowValidate

theorem find?_validator :
    Registry.find? "workflow_validate" workspace.registry = some workspace.validator := by
  simp [registry, maxNestedRuns, registryAt, registryOver, Registry.find?, validator]

/-- The arguments lead to a place inside the workspace. -/
def LeadsTo (args : Entries) (target : PlainPath) : Prop :=
  ∃ path, workspace.pathArgument args = .ok (path, some target)

/-- The execution of a document by the capability that runs files, with one nested run more for the
time that it takes. -/
def executed (document : Value) (params : Entries) (bench : Workbench) :
    Except String Report × Workbench :=
  let ran := (workspace.interpreter workspace.registry).execute document params
    { bench with nesting := bench.nesting + 1 }
  (.ok ran.1.toReport, { ran.2 with nesting := bench.nesting })

/-- The capability that runs files declines with an output. -/
structure Declines (args params : Entries) (bench : Workbench) (output : Value) : Prop where
  /-- It is unsuccessful, and the workbench with its sessions stays as it is. -/
  unsuccessful : ∃ details,
    workspace.runner.invoke args bench = (.ok ⟨output, false, details⟩, bench)
  /-- Nothing is logged of the run of a file, be it an invocation or a visit of a step. -/
  silent : ∀ target, workspace.LeadsTo args target →
    (workspace.innerRun target params bench).1.trace = .empty
  /-- With any other capabilities for nested runs it is the same. -/
  blind : ∀ nested, workspace.workflowRun nested args bench = workspace.runner.invoke args bench

/-- What a verdict on a file tells of the run of the file. -/
inductive Predicts (args params : Entries) (bench : Workbench) : Except String Report → Prop
  | raises {text : String} (h : workspace.runner.invoke args bench = (.error text, bench)) :
      Predicts args params bench (.error text)
  | declines {output : String} (h : workspace.Declines args params bench (.string output)) :
      Predicts args params bench (.ok (.failed (.string output)))
  | executes {target : PlainPath} {file : WorkflowFile} {steps : List Value}
      (hleads : workspace.LeadsTo args target)
      (hholds : WorkflowFile.Holds workspace.files target.chars file steps)
      (h : workspace.runner.invoke args bench = workspace.executed file.document params bench) :
      Predicts args params bench
        (.ok ⟨.string "valid", true, some [("step_count", .ofNat steps.length)]⟩)

variable {workspace} {args params : Entries} {bench : Workbench}

/-- The path argument leads to one target. -/
theorem LeadsTo.unique {target target' : PlainPath} (h : workspace.LeadsTo args target)
    (h' : workspace.LeadsTo args target') : target = target' := by
  obtain ⟨path, h⟩ := h
  obtain ⟨path', h'⟩ := h'
  have hsame := h.symm.trans h'
  simp only [Except.ok.injEq, Prod.mk.injEq, Option.some.injEq] at hsame
  exact hsame.2

/-- The validating tool validates the file at the target. -/
theorem LeadsTo.validator_invoke {target : PlainPath} (h : workspace.LeadsTo args target) :
    workspace.validator.invoke args bench =
      (.ok (WorkflowFile.validate workspace.files target.chars), bench) := by
  obtain ⟨path, h⟩ := h
  simp [validator, Tools.pureTool, workflowValidate, h, Except.map]

/-- A path outside of the root is declined. -/
theorem declines_of_outside {path : String}
    (hparams : Tools.optionalEntries args "params" = .ok params)
    (h : workspace.pathArgument args = .ok (path, none)) :
    workspace.Declines args params bench (.string ("path escapes workspace: " ++ path)) := by
  have hrun (nested : Registry Workbench) :
      workspace.workflowRun nested args bench = (.ok (escapeReport path), bench) := by
    simp only [Workspace.workflowRun, h, hparams]
  constructor
  · exact ⟨none, (workspace.runner_invoke_registry args bench).trans (hrun _)⟩
  · rintro target ⟨path', h'⟩
    rw [h] at h'
    simp at h'
  · intro nested
    rw [runner_invoke_registry, hrun, hrun]

section Live

variable (hlive : workspace.allowsNesting = true) (hbelow : bench.nesting < maxNestedRuns)
  (hparams : Tools.optionalEntries args "params" = .ok params)
include hlive hbelow hparams

/-- Below the limit a place inside the workspace comes to the run of a file. -/
theorem LeadsTo.workflowRun {target : PlainPath} (h : workspace.LeadsTo args target)
    (nested : Registry Workbench) :
    workspace.workflowRun nested args bench =
      (.ok (workspace.runNested nested target params bench).1,
        (workspace.runNested nested target params bench).2) := by
  obtain ⟨path, h⟩ := h
  have hlimit : ¬maxNestedRuns ≤ bench.nesting := by omega
  simp only [Workspace.workflowRun, h, hparams, hlive, Bool.not_true, Bool.false_eq_true, if_false,
    if_neg hlimit]

/-- So is a file that lacks a workflow, with the message that validation gives. -/
theorem declines_of_lacks {target : PlainPath} {output : String}
    (hleads : workspace.LeadsTo args target)
    (h : WorkflowFile.Lacks workspace.files target.chars output) :
    workspace.Declines args params bench (.string output) := by
  have hrun (nested : Registry Workbench) : workspace.workflowRun nested args bench =
      (.ok ⟨.string output, false, some [("transcript", .array [])]⟩, bench) := by
    rw [hleads.workflowRun hlive hbelow hparams, runNested, h.run_eq]
    rfl
  constructor
  · exact ⟨_, (workspace.runner_invoke_registry args bench).trans (hrun _)⟩
  · intro target' hleads'
    rw [← hleads.unique hleads', innerRun, h.run_eq]
    rfl
  · intro nested
    rw [runner_invoke_registry, hrun, hrun]

/-- A file with a workflow is executed. -/
theorem runner_invoke_of_holds {target : PlainPath} {file : WorkflowFile} {steps : List Value}
    (hleads : workspace.LeadsTo args target)
    (h : WorkflowFile.Holds workspace.files target.chars file steps) :
    workspace.runner.invoke args bench = workspace.executed file.document params bench := by
  have hkeeps := (workspace.interpreter workspace.registry).execute_keeps
    (.of_registry rfl (workspace.keeps_registryAt maxNestedRuns)) file.document params
    { bench with nesting := bench.nesting + 1 }
  rw [runner_invoke_registry, hleads.workflowRun hlive hbelow hparams, runNested, h.run_eq]
  simp only [executed, hkeeps, Nat.add_sub_cancel]

/-- The verdict on a file tells what its run comes to. -/
theorem predicts :
    workspace.Predicts args params bench (workspace.validator.invoke args bench).1 := by
  cases hpath : workspace.pathArgument args with
  | error e =>
      have hverdict : (workspace.validator.invoke args bench).1 = .error e.message := by
        simp [validator, Tools.pureTool, workflowValidate, hpath, Except.map]
      rw [hverdict]
      apply Predicts.raises
      simp only [runner_invoke_registry, Workspace.workflowRun, hpath]
  | ok named =>
      obtain ⟨path, target⟩ := named
      cases target with
      | none =>
          have hverdict : (workspace.validator.invoke args bench).1 = .ok (escapeReport path) := by
            simp [validator, Tools.pureTool, workflowValidate, hpath, Except.map]
          rw [hverdict]
          exact .declines (declines_of_outside hparams hpath)
      | some target =>
          have hleads : workspace.LeadsTo args target := ⟨path, hpath⟩
          rw [hleads.validator_invoke]
          obtain ⟨output, hlacks⟩ | ⟨file, steps, hholds⟩ :=
            WorkflowFile.lacks_or_holds workspace.files target.chars
          · rw [hlacks.validate_eq]
            exact .declines (declines_of_lacks hlive hbelow hparams hleads hlacks)
          · rw [hholds.validate_eq]
            exact .executes hleads hholds
              (runner_invoke_of_holds hlive hbelow hparams hleads hholds)

end Live

/-- **Validation predicts running.** Let there be a registry for nested runs, fewer of them than the
limit, and no parameters or a mapping of them. The capability that runs files raises an error
exactly if the one that checks them raises it. Where the check is unsuccessful, the run declines
with the same output; and where it succeeds, it counts the steps of the document that the run
executes. -/
theorem run_follows_verdict (workspace : Workspace) (args : Entries) {params : Entries}
    {bench : Workbench}
    (hlive : workspace.allowsNesting = true) (hbelow : bench.nesting < maxNestedRuns)
    (hparams : Tools.optionalEntries args "params" = .ok params) :
    Registry.find? "workflow_validate" workspace.registry = some workspace.validator ∧
    Registry.find? "workflow_run" workspace.registry = some workspace.runner ∧
    (∀ text, (workspace.runner.invoke args bench).1 = .error text ↔
      (workspace.validator.invoke args bench).1 = .error text) ∧
    (∀ verdict, (workspace.validator.invoke args bench).1 = .ok verdict →
      verdict.success = false → workspace.Declines args params bench verdict.output) ∧
    (∀ verdict, (workspace.validator.invoke args bench).1 = .ok verdict → verdict.success = true →
      ∃ target file steps, workspace.LeadsTo args target ∧
        WorkflowFile.load workspace.files target.chars = .ok file ∧
        Document.steps (some file.document) = .ok steps ∧
        verdict = ⟨.string "valid", true, some [("step_count", .ofNat steps.length)]⟩ ∧
        workspace.runner.invoke args bench = workspace.executed file.document params bench) := by
  refine ⟨workspace.find?_validator, workspace.find?_runner, ?_⟩
  have hpredicts := predicts hlive hbelow hparams
  generalize (workspace.validator.invoke args bench).1 = checked at hpredicts
  cases hpredicts with
  | raises h => simp [h]
  | declines h =>
      obtain ⟨details, hrun⟩ := h.unsuccessful
      simpa [hrun, Report.failed] using h
  | @executes target file steps hleads hholds h =>
      refine ⟨?_, ?_, ?_⟩
      · simp [h, executed]
      · intro verdict hverdict hsuccess
        cases hverdict
        contradiction
      · intro verdict hverdict _
        cases hverdict
        exact ⟨target, file, steps, hleads, hholds.load, hholds.steps, rfl, h⟩

/-! ### a file with two steps, and a name without a file -/

/-- A workspace with the root `w`, and in it a file `f` with the text of a value. -/
def workspaceHolding (v : Value) : Workspace :=
  ⟨['/', 'w'], Resolver.rich, none,
    .ofList [([['w'], ['f']], .file (some (String.ofList v.chars)))] [], true⟩

/-- A workspace holds the workflow that was written to it. -/
theorem holds_workspaceHolding {v : Value} {steps : List Value}
    (hexact : v.Exact Reading.depthLimit) (h : Document.steps (some v) = .ok steps) :
    WorkflowFile.Holds (workspaceHolding v).files ['/', 'w', '/', 'f'] ⟨['/', 'w', '/', 'f'], v⟩
      steps := by
  have hread : (workspaceHolding v).files.read ['/', 'w', '/', 'f'] =
      .ok (String.ofList v.chars) := rfl
  have hyaml : WorkflowFile.isYaml ['/', 'w', '/', 'f'] = false := by decide
  refine ⟨rfl, ?_, h⟩
  simp [WorkflowFile.load, hread, hyaml, hexact.read_chars]

/-- A mapping with two steps. -/
def twoSteps : Value := .object [("steps", .array [.null, .bool true])]

/-- In one workspace a file holds two steps and another is missing. -/
theorem run_follows_verdict_twoSteps :
    (workspaceHolding twoSteps).allowsNesting = true ∧
    (Workbench.fresh "").nesting < maxNestedRuns ∧
    Tools.optionalEntries [("path", .string "f")] "params" = .ok [] ∧
    Tools.optionalEntries [("path", .string "g")] "params" = .ok [] ∧
    (∃ target file steps, (workspaceHolding twoSteps).LeadsTo [("path", .string "f")] target ∧
      WorkflowFile.load (workspaceHolding twoSteps).files target.chars = .ok file ∧
      Document.steps (some file.document) = .ok steps ∧ steps.length = 2 ∧
      (workspaceHolding twoSteps).runner.invoke [("path", .string "f")] (.fresh "") =
        (workspaceHolding twoSteps).executed file.document [] (.fresh "")) ∧
    (workspaceHolding twoSteps).Declines [("path", .string "g")] [] (.fresh "")
      (.string "workflow file not found") := by
  have hexact : twoSteps.Exact Reading.depthLimit := by
    refine .object (by decide) fun e he => ?_
    obtain rfl := List.mem_singleton.mp he
    refine .array fun x hx => ?_
    obtain rfl | rfl : x = .null ∨ x = .bool true := by simpa using hx
    · exact .null
    · exact .bool true
  have hleads : (workspaceHolding twoSteps).LeadsTo [("path", .string "f")]
      ⟨true, [['w'], ['f']]⟩ := ⟨"f", rfl⟩
  have hchecked : ((workspaceHolding twoSteps).validator.invoke [("path", .string "f")]
      (.fresh "")).1 = .ok ⟨.string "valid", true, some [("step_count", .ofNat 2)]⟩ := by
    rw [hleads.validator_invoke]
    exact congrArg Except.ok (holds_workspaceHolding hexact rfl).validate_eq
  have hfails : ((workspaceHolding twoSteps).validator.invoke [("path", .string "g")]
      (.fresh "")).1 = .ok (.failed (.string "workflow file not found")) := rfl
  have hbelow : (Workbench.fresh "").nesting < maxNestedRuns := by decide
  obtain ⟨-, -, -, -, hruns⟩ :=
    run_follows_verdict (workspaceHolding twoSteps) [("path", .string "f")] rfl hbelow rfl
  obtain ⟨-, -, -, hdeclines, -⟩ :=
    run_follows_verdict (workspaceHolding twoSteps) [("path", .string "g")] rfl hbelow rfl
  refine ⟨rfl, hbelow, rfl, rfl, ?_, hdeclines _ hfails rfl⟩
  obtain ⟨target, file, steps, hleads, hload, hsteps, hcount, hrun⟩ := hruns _ hchecked rfl
  refine ⟨target, file, steps, hleads, hload, hsteps, ?_, hrun⟩
  have hsame : (2 : Int) = steps.length := by simpa [Value.ofNat] using hcount
  omega

end Workspace

end Runbook

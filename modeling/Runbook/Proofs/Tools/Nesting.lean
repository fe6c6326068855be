import Mathlib.Logic.Function.Iterate
import Runbook.Proofs.Run.Substitution
import Runbook.Tools.Workbench

/-!
# Runbook.Proofs.Tools.Nesting

Runs in runs. The capability that runs a workflow file may be invoked by the workflow that it runs,
with all capabilities, itself included. The counter of the workbench is one higher in the run and as
before behind it (`nesting_workflowRun`), so inside a number of runs it is higher by that number
(`Inside.nesting_eq`), and once it has come to `maxNestedRuns` no file is looked at any more
(`turnedAway`).

This is also why the registry can be built level by level. An invocation never comes down to a
registry that stands `maxNestedRuns` levels below it, whatever that registry holds
(`workflowRun_iterate`); so the built-in capabilities do what they would do if nested runs used the
very registry that the capabilities are in, and every invocation ends.
-/

namespace Runbook

variable {World Size : Type} {measure : World → Size}

/-! ## running a file -/

namespace WorkflowFile

/-- The run of a file keeps a measure that nobody changes. -/
theorem run_keeps (interpreter : Interpreter World) (hkeeps : interpreter.Keeps measure)
    (files : FileSystem) (path : List Char) (params : Entries) (world : World) :
    measure (run interpreter files path params world).2 = measure world := by
  unfold run
  split
  · rfl
  · split
    · rfl
    · exact interpreter.execute_keeps hkeeps _ _ world

/-- The run of a file is the same with a registry that agrees wherever the run can come. -/
theorem run_withRegistry (interpreter : Interpreter World) {registry : Registry World} {size : Size}
    (hkeeps : interpreter.Keeps measure)
    (hagrees : interpreter.registry.AgreesAt measure size registry) (files : FileSystem)
    (path : List Char) (params : Entries) {world : World} (hworld : measure world = size) :
    run (interpreter.withRegistry registry) files path params world =
      run interpreter files path params world := by
  unfold run
  split
  · rfl
  · split
    · rfl
    · exact interpreter.execute_withRegistry hkeeps hagrees _ _ hworld

end WorkflowFile

namespace Workspace

variable (workspace : Workspace) {nested other deepest : Registry Workbench}

/-! ## the counter -/

/-- A nested run gives the counter back as it was. -/
theorem nesting_runNested (hkeeps : nested.Keeps Workbench.nesting) (target : PlainPath)
    (params : Entries) (bench : Workbench) :
    (workspace.runNested nested target params bench).2.nesting = bench.nesting := by
  have hrun := WorkflowFile.run_keeps (workspace.interpreter nested) (.of_registry rfl hkeeps)
    workspace.files target.chars params { bench with nesting := bench.nesting + 1 }
  simp only [runNested, hrun, Nat.add_sub_cancel]

/-- Every invocation of the capability that runs files gives the counter back as it was. -/
theorem nesting_workflowRun (hkeeps : nested.Keeps Workbench.nesting) (args : Entries)
    (bench : Workbench) : (workspace.workflowRun nested args bench).2.nesting = bench.nesting := by
  unfold workflowRun
  split
  · rfl
  · split
    · rfl
    · split
      · rfl
      · split
        · rfl
        · split
          · rfl
          · exact workspace.nesting_runNested hkeeps _ _ bench

/-- A capability that only looks at its arguments changes nothing. -/
theorem keeps_pureTool (description : String) (act : Entries → Except Tools.ArgumentError Report)
    (args : Entries) (world : World) :
    ((Tools.pureTool description act).invoke args world).2 = world := by
  simp only [Tools.pureTool]
  split <;> rfl

/-- No built-in capability changes the counter if none of those in nested runs does. -/
theorem keeps_registryOver (hkeeps : nested.Keeps Workbench.nesting) :
    (workspace.registryOver nested).Keeps Workbench.nesting := by
  have hrun := workspace.nesting_workflowRun hkeeps
  simp [Registry.Keeps, registryOver, onSessions, keeps_pureTool, hrun]

/-- On every level the tools leave the number of running workflows as it was. -/
theorem keeps_registryAt (levels : Nat) :
    (workspace.registryAt levels).Keeps Workbench.nesting := by
  induction levels with
  | zero => exact workspace.keeps_registryOver (by simp [Registry.Keeps])
  | succ levels ih => exact workspace.keeps_registryOver ih

/-! ## the limit -/

/-- Where the limit is reached, the registry for nested runs does not matter, and neither do the
files. -/
theorem workflowRun_of_full {bench : Workbench} (hfull : maxNestedRuns ≤ bench.nesting)
    (files : FileSystem) (args : Entries) :
    { workspace with files := files }.workflowRun other args bench =
      workspace.workflowRun nested args bench := by
  have hpath : { workspace with files := files }.pathArgument args = workspace.pathArgument args :=
    rfl
  simp only [workflowRun, hpath, if_pos hfull]

/-- Below the limit it matters for the level above only. -/
theorem workflowRun_congr {bench : Workbench} (hkeeps : nested.Keeps Workbench.nesting)
    (hagrees : nested.AgreesAt Workbench.nesting (bench.nesting + 1) other) (args : Entries) :
    workspace.workflowRun other args bench = workspace.workflowRun nested args bench := by
  have hrun : ∀ target params, workspace.runNested other target params bench =
      workspace.runNested nested target params bench := by
    intro target params
    have hlevel : { bench with nesting := bench.nesting + 1 }.nesting = bench.nesting + 1 := rfl
    have h := WorkflowFile.run_withRegistry (workspace.interpreter nested)
      (.of_registry rfl hkeeps) hagrees workspace.files target.chars params hlevel
    simp only [runNested]
    exact congrArg (fun run : Outcome × Workbench =>
      (run.1.toReport, { run.2 with nesting := run.2.nesting - 1 })) h
  simp only [workflowRun, hrun]

/-- Registries with the same capabilities but for the one that runs files agree where that one
does. -/
theorem agreesAt_registryOver {nesting : Nat}
    (h : ∀ args bench, bench.nesting = nesting →
      workspace.workflowRun nested args bench = workspace.workflowRun other args bench) :
    (workspace.registryOver nested).AgreesAt Workbench.nesting nesting
      (workspace.registryOver other) := by
  simp only [Registry.AgreesAt, registryOver, List.forall₂_cons, List.forall₂_nil_left_iff,
    implies_true, and_true, true_and]
  exact h

/-- An invocation never comes down to the registry below so many levels that the limit is reached
before. -/
theorem workflowRun_iterate {bottom : Registry Workbench} (hkeeps : bottom.Keeps Workbench.nesting)
    {levels levels' : Nat} {bench : Workbench} (h : maxNestedRuns ≤ bench.nesting + levels)
    (h' : maxNestedRuns ≤ bench.nesting + levels') (args : Entries) :
    workspace.workflowRun (workspace.registryOver^[levels] deepest) args bench =
      workspace.workflowRun (workspace.registryOver^[levels'] bottom) args bench := by
  induction levels generalizing levels' bench args with
  | zero => exact workspace.workflowRun_of_full h workspace.files args
  | succ levels ih =>
      cases levels' with
      | zero => exact workspace.workflowRun_of_full h' workspace.files args
      | succ levels' =>
          have hiterate : ∀ n, (workspace.registryOver^[n] bottom).Keeps Workbench.nesting := by
            intro n
            induction n with
            | zero => exact hkeeps
            | succ n ih =>
                rw [Function.iterate_succ_apply']
                exact workspace.keeps_registryOver ih
          apply workspace.workflowRun_congr (hiterate _)
          rw [Function.iterate_succ_apply', Function.iterate_succ_apply']
          apply workspace.agreesAt_registryOver
          intro args bench' hbench'
          exact (ih (by omega) (by omega) args).symm

/-- The levels of the registry are built one over the other. -/
theorem registryAt_eq_iterate (levels : Nat) :
    workspace.registryAt levels = workspace.registryOver^[levels + 1] [] := by
  induction levels with
  | zero => rfl
  | succ levels ih => rw [registryAt, ih, ← Function.iterate_succ_apply' workspace.registryOver]

/-- The built-in capability that runs files. -/
def runner : Capability Workbench :=
  ⟨"Execute a workflow file inside the workspace using the tool registry.",
    workspace.workflowRun (workspace.registryAt (maxNestedRuns - 1))⟩

theorem find?_runner :
    Registry.find? "workflow_run" workspace.registry = some workspace.runner := by
  simp [registry, maxNestedRuns, registryAt, registryOver, Registry.find?, runner]

/-- The built-in capability does what it does over any registry that is far enough below. -/
theorem runner_invoke {levels : Nat} {bench : Workbench}
    (h : maxNestedRuns ≤ bench.nesting + levels) (deepest : Registry Workbench) (args : Entries) :
    workspace.runner.invoke args bench =
      workspace.workflowRun (workspace.registryOver^[levels] deepest) args bench := by
  rw [runner, registryAt_eq_iterate]
  exact (workspace.workflowRun_iterate (by simp [Registry.Keeps]) h (by omega) args).symm

/-- The built-in capability runs files with the registry that it is in. -/
theorem runner_invoke_registry (args : Entries) (bench : Workbench) :
    workspace.runner.invoke args bench =
      workspace.workflowRun workspace.registry args bench := by
  rw [registry, registryAt_eq_iterate]
  exact workspace.runner_invoke (by omega) [] args

/-! ## runs in runs -/

/-- An invocation of the capability that runs files. -/
structure RunCall where
  /-- Its arguments. -/
  args : Entries
  /-- The workbench at which it is made. -/
  bench : Workbench

/-- The run of a file with the built-in capabilities, one level further in. -/
def innerRun (target : PlainPath) (params : Entries) (bench : Workbench) : Outcome × Workbench :=
  WorkflowFile.run (workspace.interpreter workspace.registry) workspace.files target.chars params
    { bench with nesting := bench.nesting + 1 }

/-- The first invocation comes to the run of a file, and the second one is made in this run. -/
inductive Opens : RunCall → RunCall → Prop where
  | made {outer : RunCall} {path : String} {target : PlainPath} {params : Entries}
      {earlier later : List Invocation} {invocation : Invocation} {bench : Workbench}
      (hpath : workspace.pathArgument outer.args = .ok (path, some target))
      (hparams : Tools.optionalEntries outer.args "params" = .ok params)
      (hruns : (workspace.runner.invoke outer.args outer.bench).1 =
        .ok (workspace.innerRun target params outer.bench).1.toReport)
      (hmade : (workspace.innerRun target params outer.bench).1.trace.invocations =
        earlier ++ invocation :: later)
      (htool : invocation.tool = "workflow_run")
      (hbefore : Replays workspace.registry earlier
        { outer.bench with nesting := outer.bench.nesting + 1 } bench) :
      Opens outer ⟨invocation.args, bench⟩

/-- The invocation is made inside a number of runs, the outermost of which the first invocation
came to. -/
inductive Inside (call : RunCall) : Nat → RunCall → Prop where
  | itself : Inside call 0 call
  | opened {active : Nat} {outer inner : RunCall} (h : Inside call active outer)
      (hopens : workspace.Opens outer inner) : Inside call (active + 1) inner

/-- The invocation is turned away, and no file has a part in that. -/
structure TurnedAway (call : RunCall) : Prop where
  /-- It is a failure or raises an error. -/
  unsuccessful : (Report.ofResult (workspace.runner.invoke call.args call.bench).1).success = false
  /-- Neither the sessions nor the counter change. -/
  unchanged : (workspace.runner.invoke call.args call.bench).2 = call.bench
  /-- With any other files and any other capabilities for nested runs it is the same. -/
  blind : ∀ files nested,
    { workspace with files := files }.workflowRun nested call.args call.bench =
      workspace.runner.invoke call.args call.bench
  /-- If its arguments are accepted, the failure tells the limit. -/
  told : ∀ path target params, workspace.pathArgument call.args = .ok (path, some target) →
    Tools.optionalEntries call.args "params" = .ok params → workspace.allowsNesting = true →
    (workspace.runner.invoke call.args call.bench).1 =
      .ok (.failed (.string ("workflow nesting exceeds 8 levels: " ++ path)))

/-- A failure at the limit has no details, and it leaves the workbench alone. -/
theorem failed_of_full (nested : Registry Workbench) {bench : Workbench}
    (hfull : maxNestedRuns ≤ bench.nesting) (args : Entries) :
    (workspace.workflowRun nested args bench).2 = bench ∧
      ∀ report, (workspace.workflowRun nested args bench).1 = .ok report →
        report.success = false ∧ report.metadata = none := by
  simp only [workflowRun, if_pos hfull]
  split
  · simp
  · split
    · simp
    · split
      · simp [escapeReport, Report.failed]
      · split <;> simp [Report.failed]

/-- Where the limit is reached, every invocation is turned away. -/
theorem turnedAway {call : RunCall} (hfull : maxNestedRuns ≤ call.bench.nesting) :
    workspace.TurnedAway call := by
  have hfailed := workspace.failed_of_full workspace.registry hfull call.args
  rw [← runner_invoke_registry] at hfailed
  refine ⟨?_, hfailed.1, ?_, ?_⟩
  · cases hresult : (workspace.runner.invoke call.args call.bench).1 with
    | error text => rfl
    | ok report => exact (hfailed.2 report hresult).1
  · intro files nested
    rw [runner_invoke_registry]
    exact workspace.workflowRun_of_full hfull files call.args
  · intro path target params hpath hparams hallows
    rw [runner_invoke_registry]
    simp only [workflowRun, hpath, hparams, hallows, if_pos hfull]
    rfl

/-- What a run reports has details. -/
theorem metadata_toReport (outcome : Outcome) : outcome.toReport.metadata ≠ none := by
  unfold Outcome.toReport
  split <;> simp

variable {workspace} {call outer inner : RunCall}

/-- An invocation that comes to a run is below the limit. -/
theorem Opens.nesting_lt (h : workspace.Opens outer inner) :
    outer.bench.nesting < maxNestedRuns := by
  obtain ⟨hpath, hparams, hruns, hmade, htool, hbefore⟩ := h
  by_contra hfull
  rw [runner_invoke_registry] at hruns
  exact metadata_toReport _ ((workspace.failed_of_full workspace.registry (by omega) _).2 _ hruns).2

/-- In the run the counter is higher by one. -/
theorem Opens.nesting_eq (h : workspace.Opens outer inner) :
    inner.bench.nesting = outer.bench.nesting + 1 := by
  obtain ⟨hpath, hparams, hruns, hmade, htool, hbefore⟩ := h
  exact hbefore.keeps (workspace.keeps_registryAt _)

/-- Inside some runs the counter is higher by their number. -/
theorem Inside.nesting_eq {active : Nat} (h : workspace.Inside call active inner) :
    inner.bench.nesting = call.bench.nesting + active := by
  induction h with
  | itself => rfl
  | opened h hopens ih => rw [hopens.nesting_eq, ih, Nat.add_assoc]

/-- No run is opened at the limit, so there are never more runs in one another. -/
theorem Inside.nesting_le {active : Nat} (h : workspace.Inside call active inner)
    (hsome : active ≠ 0) : inner.bench.nesting ≤ maxNestedRuns := by
  cases h with
  | itself => contradiction
  | opened h hopens =>
      have hlt := hopens.nesting_lt
      have heq := hopens.nesting_eq
      omega

/-- **Nested runs are bounded.** The built-in capability that runs workflow files does what it would
do if nested runs used the registry that it is in, and it never comes down to a registry that is as
many levels below as the counter may still go up; so each invocation ends. Behind it the counter is
as before. Every invocation of the capability that is made inside a number of active runs finds the
counter higher by this number, which is never above the limit, and where the limit is reached it is
turned away without a look at any file. -/
theorem runs_bounded (workspace : Workspace) :
    ∃ capability, Registry.find? "workflow_run" workspace.registry = some capability ∧
      ∀ args bench,
        capability.invoke args bench = workspace.workflowRun workspace.registry args bench ∧
        (∀ levels deepest, maxNestedRuns ≤ bench.nesting + levels →
          capability.invoke args bench =
            workspace.workflowRun (workspace.registryOver^[levels] deepest) args bench) ∧
        (capability.invoke args bench).2.nesting = bench.nesting ∧
        ∀ active inner, workspace.Inside ⟨args, bench⟩ active inner →
          inner.bench.nesting = bench.nesting + active ∧
          (active ≠ 0 → bench.nesting + active ≤ maxNestedRuns) ∧
          (maxNestedRuns ≤ bench.nesting + active → workspace.TurnedAway inner) := by
  refine ⟨workspace.runner, workspace.find?_runner, ?_⟩
  intro args bench
  refine ⟨workspace.runner_invoke_registry args bench, ?_, ?_, ?_⟩
  · intro levels deepest hlevels
    exact workspace.runner_invoke hlevels deepest args
  · exact workspace.nesting_workflowRun (workspace.keeps_registryAt _) args bench
  · intro active inner hinside
    have hnesting := hinside.nesting_eq
    refine ⟨hnesting, ?_, ?_⟩
    · intro hsome
      exact hnesting ▸ hinside.nesting_le hsome
    · intro hfull
      exact workspace.turnedAway (hnesting ▸ hfull)

end Workspace

end Runbook

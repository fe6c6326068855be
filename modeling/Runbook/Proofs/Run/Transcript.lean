import Mathlib.Data.List.Basic
import Runbook.Proofs.Run.History
import Runbook.Proofs.Step

/-!
# Runbook.Proofs.Run.Transcript

The transcript of a run, taken apart. Each visit of a run has a block of invocations, and the
transcript is what the blocks leave in it, one after the other: the line of a skip, or one line for
each invocation (`Block.lines`). `Block.Regular` says what holds within a block: which invocations
failed, how many there are, and that all of them got the same arguments.

The blocks are read off the history of the run.
-/

namespace Runbook

variable {World : Type}

/-! ## blocks -/

/-- A visit and the invocations that were made for it. -/
structure Block where
  /-- The visit. -/
  visit : Visit
  /-- The invocations, oldest first. -/
  invocations : List Invocation

/-- The lines that a block leaves in the transcript. -/
def Block.lines (block : Block) : List String :=
  match block.visit.disposition with
  | .skipped => [block.visit.id ++ ":skipped"]
  | .succeeded | .tolerated | .fatal => block.invocations.map Invocation.line

/-- What holds in the block of a step. -/
structure Block.OfStep (interpreter : Interpreter World) (step : Step) (block : Block) : Prop where
  /-- The visit is one of the step. -/
  id_eq : block.visit.id = step.id
  /-- The capability is the one that the step names. -/
  tool_eq : ∀ invocation ∈ block.invocations, step.tool = some invocation.tool
  /-- The arguments are rendered once, for all invocations. -/
  args_eq : ∃ context, ∀ invocation ∈ block.invocations,
    invocation.args = Template.renderEntries interpreter.resolver context step.args
  /-- There is one attempt more than retries at most, and retries are limited. -/
  attempts_le : block.visit.attempts ≤ step.retries + 1 ∧ step.retries + 1 ≤ 101
  /-- A capability that is missing or not registered is not attempted. -/
  unregistered : interpreter.capability? step = none → block.visit.attempts = 0
  /-- A failure of a registered capability has used all attempts up. -/
  exhausted : (interpreter.capability? step).isSome →
    block.visit.disposition = .tolerated ∨ block.visit.disposition = .fatal →
    block.visit.attempts = step.retries + 1

/-- What holds in the block of a value of the document. -/
structure Block.Regular (interpreter : Interpreter World) (raw : Value) (block : Block) :
    Prop where
  /-- The visit counts the invocations. -/
  attempts_eq : block.visit.attempts = block.invocations.length
  /-- The invocations were made for the visit. -/
  owner_eq : ∀ invocation ∈ block.invocations,
    invocation.id = block.visit.id ∧ invocation.iteration = block.visit.iteration
  /-- A step that is skipped is not attempted. -/
  skipped : block.visit.disposition = .skipped → block.invocations = []
  /-- All invocations but the last one failed. -/
  earlier_failed : ∀ invocation ∈ block.invocations.dropLast, invocation.succeeded = false
  /-- The last one succeeded exactly if the visit is a success. -/
  last_succeeded : (∃ invocation, block.invocations.getLast? = some invocation ∧
    invocation.succeeded = true) ↔ block.visit.disposition = .succeeded
  /-- A value that is no step ends the run without an invocation. -/
  malformed : (∃ misfit, Step.ofValue raw = .error misfit) →
    block.visit = ⟨Step.idOfValue raw, .fatal, 0, none⟩
  /-- A value that is a step has the block of the step. -/
  ofStep : ∀ step, Step.ofValue raw = .ok step → block.OfStep interpreter step

/-! ## the block of an event -/

namespace Body

variable {interpreter : Interpreter World} {context : Context} {before after : World}
  {body : Body World}

/-- A body succeeded exactly if the last of its invocations did. -/
theorem Runs.last_succeeded (h : body.Runs interpreter context before after) :
    (∃ invocation, body.invocations.getLast? = some invocation ∧ invocation.succeeded = true) ↔
      body.disposition = .succeeded := by
  have hdisposition : body.disposition = .succeeded ↔ body.report.success = true := by
    unfold disposition
    by_cases hs : body.report.success = true
    · simp [hs]
    · by_cases ha : body.step.allowFailure = true <;> simp [hs, ha]
  rw [hdisposition]
  cases hcap : interpreter.capability? body.step with
  | none =>
      obtain ⟨hnone, hreport⟩ := h.unknown hcap
      simp [hnone, hreport, Step.unknownTool, Report.withDetail, Report.failed]
  | some capability =>
      obtain ⟨earlier, last, hsplit, hreport, -⟩ := h.tried (by simp [hcap])
      simp [hsplit, hreport, Invocation.success_report]

/-- All invocations of a body but the last one failed. -/
theorem Runs.earlier_failed (h : body.Runs interpreter context before after) :
    ∀ invocation ∈ body.invocations.dropLast, invocation.succeeded = false := by
  cases hcap : interpreter.capability? body.step with
  | none => simp [(h.unknown hcap).1]
  | some capability =>
      obtain ⟨earlier, last, hsplit, -, hfailed, -⟩ := h.tried (by simp [hcap])
      rw [hsplit, List.dropLast_concat]
      exact hfailed

/-- A body makes one invocation more than its step has retries at most. -/
theorem Runs.length_le (h : body.Runs interpreter context before after) :
    body.invocations.length ≤ body.step.retries + 1 := by
  cases hcap : interpreter.capability? body.step with
  | none => simp [(h.unknown hcap).1]
  | some capability =>
      obtain ⟨earlier, last, hsplit, -, -, hle, -⟩ := h.tried (by simp [hcap])
      rw [hsplit, List.length_append, List.length_singleton]
      omega

/-- A body that failed, with a registered capability, has used all its attempts up. -/
theorem Runs.length_of_failed (h : body.Runs interpreter context before after)
    (hcap : (interpreter.capability? body.step).isSome)
    (hfailed : body.disposition ≠ .succeeded) :
    body.invocations.length = body.step.retries + 1 := by
  obtain ⟨earlier, last, hsplit, -, -, -, hfull⟩ := h.tried hcap
  have hlast : last.succeeded = false := by
    cases hs : last.succeeded with
    | false => rfl
    | true => exact absurd (h.last_succeeded.mp ⟨last, by simp [hsplit], hs⟩) hfailed
  rw [hsplit, List.length_append, List.length_singleton, hfull hlast]

/-- The disposition of a body is never that of a skip. -/
theorem disposition_ne_skipped (body : Body World) : body.disposition ≠ .skipped := by
  unfold disposition
  split
  · simp
  · split <;> simp

/-- The block of a body is the block of its step. -/
theorem Runs.block_ofStep (h : body.Runs interpreter context before after)
    (hretries : body.step.retries ≤ Step.maxRetries) :
    Block.OfStep interpreter body.step ⟨body.visit, body.invocations⟩ where
  id_eq := rfl
  tool_eq invocation hmem := (h.made invocation hmem).2.2.1
  args_eq := ⟨body.enter context, fun invocation hmem => (h.made invocation hmem).2.2.2⟩
  attempts_le := ⟨h.length_le, Nat.succ_le_succ hretries⟩
  unregistered hnone := by simp [visit, (h.unknown hnone).1]
  exhausted hsome hfailed := by
    apply h.length_of_failed hsome
    intro hsucceeded
    simp only [visit, hsucceeded] at hfailed
    rcases hfailed with hfailed | hfailed <;> contradiction

/-- The block of a body is regular for the value that its step was read from. -/
theorem Runs.block_regular (h : body.Runs interpreter context before after) {raw : Value}
    (hread : Step.ofValue raw = .ok body.step) :
    Block.Regular interpreter raw ⟨body.visit, body.invocations⟩ where
  attempts_eq := rfl
  owner_eq invocation hmem := ⟨(h.made invocation hmem).1, (h.made invocation hmem).2.1⟩
  skipped hskipped := absurd hskipped body.disposition_ne_skipped
  earlier_failed := h.earlier_failed
  last_succeeded := h.last_succeeded
  malformed := by
    rintro ⟨misfit, hmisfit⟩
    rw [hread] at hmisfit
    contradiction
  ofStep := by
    intro step hstep
    obtain rfl := Except.ok.inj (hread.symm.trans hstep)
    exact h.block_ofStep (Step.retries_le_of_ofValue hread)

end Body

namespace Event

/-- The block of an event. -/
def block (event : Event World) : Block := ⟨event.visit, event.invocations⟩

variable {interpreter : Interpreter World} {task : Task} {context : Context} {before after : World}

/-- The lines of an event are those of its block. -/
theorem lines_block (event : Event World) : event.block.lines = event.lines := by
  cases event with
  | refused raw => rfl
  | skipped step => rfl
  | carriedOut body =>
      simp only [Block.lines, block, visit, Body.visit, lines, invocations]
      cases hdisposition : body.disposition with
      | skipped => exact absurd hdisposition body.disposition_ne_skipped
      | succeeded | tolerated | fatal => rfl

/-- An event that can happen replays its invocations. -/
theorem Happens.replays {event : Event World}
    (h : event.Happens interpreter task context before after) :
    Replays interpreter.registry event.invocations before after := by
  cases h with
  | refused hread => rfl
  | skipped hread hholds => rfl
  | once hread hholds hitems hitem hruns => exact hruns.replays
  | item hread hitem hruns => exact hruns.replays

/-- The block of an event that can happen is regular for the value that its task belongs to. -/
theorem Happens.regular {event : Event World}
    (h : event.Happens interpreter task context before after) :
    event.block.Regular interpreter task.raw := by
  cases h with
  | refused hread =>
      refine ⟨rfl, by simp [block, invocations], by simp [block, invocations],
        by simp [block, invocations], by simp [block, invocations, visit], fun _ => rfl, ?_⟩
      intro step hstep
      rw [Task.raw, hread] at hstep
      contradiction
  | skipped hread hholds =>
      have hretries := Step.retries_le_of_ofValue hread
      refine ⟨rfl, by simp [block, invocations], fun _ => rfl, by simp [block, invocations],
        by simp [block, invocations, visit], ?_, ?_⟩
      · rintro ⟨misfit, hmisfit⟩
        rw [Task.raw, hread] at hmisfit
        contradiction
      · intro step' hstep'
        obtain rfl := Except.ok.inj (hread.symm.trans hstep')
        exact ⟨rfl, by simp [block, invocations], ⟨context, by simp [block, invocations]⟩,
          ⟨Nat.zero_le _, Nat.succ_le_succ hretries⟩, fun _ => rfl, by simp [block, visit]⟩
  | once hread hholds hitems hitem hruns => exact hruns.block_regular hread
  | item hread hitem hruns => exact hruns.block_regular hread

end Event

/-! ## the blocks of a run -/

namespace History

variable {interpreter : Interpreter World} {tasks : List Task} {history : List (Event World)}
  {context context' : Context} {before after : World} {ending : Ending}

/-- The invocations of a history, event by event, are all that the run did to the world. A look that
opens a loop stands in front of its first item's, so it counts for the event behind it. -/
theorem Leads.retraces
    (h : Leads interpreter tasks history context before context' after ending) :
    interpreter.Retraces (history.map Event.invocations) before after := by
  induction h with
  | done => exact ⟨0, rfl⟩
  | cancelled hcancelled => exact ⟨1, rfl⟩
  | opened hgoing hread hholds hitems leads ih => exact ih.look
  | @next task todo event rest context context' before middle after ending hgoing happens hgoes
      leads ih => exact ⟨0, middle, happens.replays, ih⟩
  | @ended task todo event context before after message hgoing happens hends =>
      exact ⟨0, after, happens.replays, 0, rfl⟩

/-- The tasks of a loop belong to the value that the loop is at. -/
theorem raw_of_mem_loopTasks {raw : Value} {place : Nat} {items : List Value} {task : Task}
    (h : task ∈ loopTasks raw place items) : task.raw = raw := by
  obtain ⟨_, -, rfl⟩ := List.mem_map.mp h
  rfl

/-- The blocks of a history are regular, each for the value of a task. -/
theorem Leads.regular (h : Leads interpreter tasks history context before context' after ending) :
    ∀ event ∈ history, ∃ task ∈ tasks, event.block.Regular interpreter task.raw := by
  induction h with
  | done => simp
  | cancelled hcancelled => simp
  | @opened raw step items todo history context context' before after ending hgoing hread hholds
      hitems leads ih =>
      intro event hevent
      obtain ⟨task, htask, hregular⟩ := ih event hevent
      rcases List.mem_append.mp htask with hloop | htodo
      · rw [raw_of_mem_loopTasks hloop] at hregular
        exact ⟨.value raw, List.mem_cons_self, hregular⟩
      · exact ⟨task, List.mem_cons_of_mem _ htodo, hregular⟩
  | next hgoing happens hgoes leads ih =>
      intro event hevent
      rcases List.mem_cons.mp hevent with rfl | hevent
      · exact ⟨_, List.mem_cons_self, happens.regular⟩
      · obtain ⟨task, htask, hregular⟩ := ih event hevent
        exact ⟨task, List.mem_cons_of_mem _ htask, hregular⟩
  | ended hgoing happens hends =>
      intro event hevent
      obtain rfl := List.mem_singleton.mp hevent
      exact ⟨_, List.mem_cons_self, happens.regular⟩

end History

/-- **The transcript of a run, block by block.** The visits of a run have one block each; the
transcript and the invocations of the run are those of the blocks in their order, the invocations
are what the capabilities of the registry did from the first world to the last, with a look at the
flag or more in front of each block, and the block of each visit is regular for a value of the
document. -/
theorem transcript_blocks (interpreter : Interpreter World) (document : Value) (params : Entries)
    (world : World) :
    ∃ blocks : List Block,
      (interpreter.execute document params world).1.trace.visits = blocks.map Block.visit ∧
      (interpreter.execute document params world).1.trace.transcript =
        blocks.flatMap Block.lines ∧
      (interpreter.execute document params world).1.trace.invocations =
        blocks.flatMap Block.invocations ∧
      interpreter.Retraces (blocks.map Block.invocations) world
        (interpreter.execute document params world).2 ∧
      ∀ block ∈ blocks, ∃ raw ∈ Interpreter.stepsOf document,
        block.Regular interpreter raw := by
  obtain ⟨history, context, ending, hleads, -, htrace, -⟩ :=
    interpreter.exists_history document params world
  refine ⟨history.map Event.block, ?_, ?_, ?_, ?_, ?_⟩
  · rw [htrace, List.map_map]
    rfl
  · rw [htrace, List.flatMap_map]
    exact List.flatMap_congr fun event _ => event.lines_block.symm
  · rw [htrace, List.flatMap_map]
    rfl
  · rw [List.map_map]
    exact hleads.retraces
  · intro block hmem
    obtain ⟨event, hevent, rfl⟩ := List.mem_map.mp hmem
    obtain ⟨task, htask, hregular⟩ := hleads.regular event hevent
    obtain ⟨raw, hraw, rfl⟩ := List.mem_map.mp htask
    exact ⟨raw, hraw, hregular⟩

end Runbook

import Mathlib.Logic.ExistsUnique
import Runbook.Proofs.Run.Itinerary

/-!
# Runbook.Proofs.Run.Outcome

The ways in which a run can come out. A run is rejected, completed, aborted or cancelled, and its
outcome shows which (`Outcome.IsOf`). No outcome is of two kinds, since the kinds differ in their
success, in the step that failed or in what the outcome says (`Outcome.IsOf.unique`).

What a run did can be accounted for passage by passage (`Account`); if it was completed, nothing was
left out.
-/

namespace Runbook

variable {World : Type}

/-! ## kinds of outcomes -/

namespace Outcome

/-- How a run came out. -/
inductive Kind where
  /-- The document is no workflow. -/
  | rejected
  /-- The run went through to its end. -/
  | completed
  /-- A step ended the run. -/
  | aborted
  /-- The run was cancelled. -/
  | cancelled
deriving DecidableEq

/-- The outcome is of a kind: what it says, which step it blames, and which visits it has. -/
def IsOf (document : Value) (outcome : Outcome) : Kind → Prop
  | .rejected => outcome.success = false ∧
      (∃ defect, Document.steps (some document) = .error defect ∧
        outcome.output = .string defect.message) ∧
      outcome.failedStep = none ∧ outcome.trace = .empty
  | .completed => outcome.success = true ∧ outcome.output = .string completedText ∧
      outcome.failedStep = none ∧ ∀ visit ∈ outcome.trace.visits, visit.disposition ≠ .fatal
  | .aborted => outcome.success = false ∧
      ∃ earlier last, outcome.trace.visits = earlier ++ [last] ∧
        outcome.failedStep = some last.id ∧ last.disposition = .fatal ∧
        ∀ visit ∈ earlier, visit.disposition ≠ .fatal
  | .cancelled => outcome.success = false ∧ outcome.output = .string cancelledText ∧
      outcome.failedStep = none ∧ ∀ visit ∈ outcome.trace.visits, visit.disposition ≠ .fatal

/-- A run that never started does not claim to be cancelled. -/
theorem message_ne_cancelledText (defect : Document.Defect) : defect.message ≠ cancelledText := by
  cases defect <;> decide

/-- An outcome of the first kind is not of the others. -/
theorem IsOf.unique {document : Value} {outcome : Outcome} {kind other : Kind}
    (h : outcome.IsOf document kind) (h' : outcome.IsOf document other) : kind = other := by
  have hmessage := message_ne_cancelledText
  cases kind <;> cases other <;> grind [IsOf]

end Outcome

/-- The visits of events that do not end the run are not fatal. -/
theorem History.forall_visit_ne_fatal {history : List (Event World)}
    (h : ∀ event ∈ history, event.endsRun = false) :
    ∀ visit ∈ history.map Event.visit, visit.disposition ≠ .fatal := by
  rw [List.forall_mem_map]
  intro event hevent
  simpa [Event.endsRun, Disposition.endsRun] using h event hevent

namespace Interpreter

variable (interpreter : Interpreter World)

/-- A workflow is run step by step. -/
theorem execute_of_steps {document : Value} {raws : List Value}
    (hsteps : Document.steps (some document) = .ok raws) (params : Entries) (world : World) :
    interpreter.execute document params world =
      (finish params (interpreter.runSteps raws (.ofParameters params) world),
        (interpreter.runSteps raws (.ofParameters params) world).world) := by
  simp [execute, hsteps]

/-- The kind of outcome that a run has from how it ended. -/
def kindOf : Ending → Outcome.Kind
  | .done => .completed
  | .cancelled => .cancelled
  | .aborted _ _ => .aborted

/-- The outcome of a run that has a history is of the kind that its ending says. -/
theorem isOf_finish {tasks : List Task} {history : List (Event World)} {context : Context}
    {world : World} {stage : Stage World}
    (h : History.Explains interpreter tasks history context world stage)
    (document : Value) (params : Entries) :
    (finish params stage).IsOf document (kindOf stage.ending) := by
  obtain ⟨hleads, htrace⟩ := h
  have hvisits : stage.trace.visits = history.map Event.visit := by rw [htrace]; rfl
  unfold finish
  cases hending : stage.ending with
  | done | cancelled =>
      have hgoes := hleads.endsRun_eq_false (by simp [hending])
      refine ⟨rfl, rfl, rfl, ?_⟩
      rw [hvisits]
      exact History.forall_visit_ne_fatal hgoes
  | aborted id message =>
      rw [hending] at hleads
      obtain ⟨earlier, last, hhistory, hid, hends, hearlier⟩ := hleads.exists_last
      refine ⟨rfl, earlier.map Event.visit, last.visit, ?_, by rw [hid], ?_,
        History.forall_visit_ne_fatal hearlier⟩
      · rw [hvisits, hhistory, List.map_append, List.map_singleton]
      · simpa [Event.endsRun, Disposition.endsRun] using hends

/-- Every outcome is of one of the kinds. -/
theorem exists_kind (document : Value) (params : Entries) (world : World) :
    ∃ kind, (interpreter.execute document params world).1.IsOf document kind := by
  cases hsteps : Document.steps (some document) with
  | error defect =>
      refine ⟨.rejected, ?_⟩
      simp [execute, hsteps, Outcome.IsOf]
  | ok raws =>
      rw [interpreter.execute_of_steps hsteps]
      obtain ⟨history, h⟩ := interpreter.exists_explains_runSteps raws (.ofParameters params) world
      exact ⟨_, interpreter.isOf_finish h document params⟩

end Interpreter

/-! ## accounts -/

/-- The passages account for a run: they are its way through the document, and they make its
logs. -/
structure Account (interpreter : Interpreter World) (document : Value) (params : Entries)
    (world : World) (passages : List (Passage World)) : Prop where
  /-- They go from the context of the parameters to the one that the run leaves behind. -/
  itinerary : ∃ context ending, Itinerary interpreter (Interpreter.stepsOf document) passages
    (.ofParameters params) world context (interpreter.execute document params world).2 ending ∧
    (interpreter.execute document params world).1.context = context.entries
  /-- The logs of the run are those of the events. -/
  trace_eq : (interpreter.execute document params world).1.trace =
    History.trace (passages.flatMap Passage.events)
  /-- Nothing but the invocations that the run notes, event by event, and what others do up to its
  looks at the flag, changed the world. -/
  retraces : interpreter.Retraces ((passages.flatMap Passage.events).map Event.invocations) world
    (interpreter.execute document params world).2
  /-- They belong to the first values of the document, in its order. -/
  raws_eq : passages.map Passage.raw <+: Interpreter.stepsOf document
  /-- Their visits are in order. -/
  ordered : ∀ passage ∈ passages, passage.Ordered interpreter
  /-- All but the last one went through their values to their ends. -/
  complete : ∀ passage ∈ passages.dropLast, passage.Complete interpreter
  /-- A run that was completed went through all values to their ends. -/
  exhausts : (interpreter.execute document params world).1.success = true →
    Exhausts interpreter (Interpreter.stepsOf document) passages
  /-- A run that was cancelled left something out. -/
  not_exhausts : (interpreter.execute document params world).1.IsOf document .cancelled →
    ¬Exhausts interpreter (Interpreter.stepsOf document) passages

namespace Interpreter

variable (interpreter : Interpreter World)

/-- What a run leaves behind is what the run of its steps does. Only if that goes through to its end
is the run a success, and only if that is cancelled is the outcome one of a cancelled run. -/
theorem execute_stage (document : Value) (params : Entries) (world : World) {stage : Stage World}
    (hstage : stage =
      interpreter.runSteps (stepsOf document) (.ofParameters params) world) :
    (interpreter.execute document params world).1.context = stage.context.entries ∧
      (interpreter.execute document params world).1.trace = stage.trace ∧
      (interpreter.execute document params world).2 = stage.world ∧
      ((interpreter.execute document params world).1.success = true → stage.ending = .done) ∧
      ((interpreter.execute document params world).1.IsOf document .cancelled →
        stage.ending = .cancelled) := by
  cases hsteps : Document.steps (some document) with
  | error defect =>
      have hnone : stepsOf document = [] := by
        rw [stepsOf, hsteps]
        rfl
      have hmessage := Outcome.message_ne_cancelledText defect
      rw [hnone] at hstage
      subst hstage
      simp [execute, hsteps, runSteps, Stage.still, Outcome.IsOf, hmessage]
  | ok raws =>
      have hraws : stepsOf document = raws := by
        rw [stepsOf, hsteps]
        rfl
      rw [hraws] at hstage
      rw [interpreter.execute_of_steps hsteps, ← hstage]
      unfold finish
      cases stage.ending with
      | done | cancelled | aborted => simp [Outcome.IsOf]

/-- Every run can be accounted for. -/
theorem exists_account (document : Value) (params : Entries) (world : World) :
    ∃ passages, Account interpreter document params world passages := by
  generalize hstage : interpreter.runSteps (stepsOf document) (.ofParameters params) world = stage
  obtain ⟨hcontext, htrace, hworld, hsuccess, hcancelled⟩ :=
    interpreter.execute_stage document params world hstage.symm
  obtain ⟨history, hleads, hhistory⟩ :=
    interpreter.exists_explains_runSteps (stepsOf document) (.ofParameters params) world
  rw [hstage] at hleads hhistory
  obtain ⟨passages, hitinerary, rfl⟩ := Itinerary.exists_of_leads hleads
  have hlogs := htrace.trans hhistory
  refine ⟨passages, ⟨_, stage.ending, ?_, hcontext⟩, hlogs, ?_, hitinerary.raws_eq,
    hitinerary.ordered, hitinerary.complete_of_mem_dropLast,
    fun h => hitinerary.exhausts (hsuccess h), fun h => hitinerary.not_exhausts (hcancelled h)⟩
  · rw [hworld]
    exact hitinerary
  · rw [hworld]
    exact hleads.retraces

end Interpreter

/-- **The ways in which a run can come out.** Every outcome is of exactly one kind, and the run
behind it can be accounted for passage by passage: its logs are those of the events on its way
through the document, nothing else was invoked, the visits are in order, and if it was completed
nothing was left out. -/
theorem kind_of_execute (interpreter : Interpreter World) (document : Value) (params : Entries)
    (world : World) :
    (∃! kind, (interpreter.execute document params world).1.IsOf document kind) ∧
      ∃ passages, Account interpreter document params world passages := by
  obtain ⟨kind, hkind⟩ := interpreter.exists_kind document params world
  exact ⟨⟨kind, hkind, fun other hother => hother.unique hkind⟩,
    interpreter.exists_account document params world⟩

/-! ### flags that others set -/

/-- The interpreter with a flag that others set and take back by a schedule: the look with this
number, counted from zero, finds it set if the schedule says so. The world counts the looks. -/
def Interpreter.scheduled (interpreter : Interpreter World) (schedule : Nat → Bool) :
    Interpreter (World × Nat) where
  registry := interpreter.registry.map fun (name, capability) =>
    (name, capability.within Prod.fst fun world found => (world, found.2))
  resolver := interpreter.resolver
  cancellation := some ⟨fun found => (found.1, found.2 + 1), fun found => schedule (found.2 - 1)⟩
  defaultDelay := interpreter.defaultDelay

/-- A loop over two items, for which a missing capability is tolerated. -/
def twoItems : Value :=
  .object [("steps", .array [.object [("loop", .array [.null, .null]),
    ("allow_failure", .bool true)]])]

-- The flag is set before the step, between the step and its first item, between the two items, and
-- when the run is done; no capability is there to set it.
example : ((List.range 4).map fun number =>
    let interpreter : Interpreter Unit := ⟨[], Resolver.basic, none, none⟩
    let outcome := ((interpreter.scheduled (number ≤ ·)).execute twoItems [] ((), 0)).1
    (outcome.success, outcome.trace.visits.map Visit.iteration)) =
      [(false, []), (false, []), (false, [some 0]), (true, [some 0, some 1])] := by
  decide +kernel

end Runbook

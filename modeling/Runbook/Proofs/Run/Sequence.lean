import Runbook.Proofs.Run.Outcome

/-!
# Runbook.Proofs.Run.Sequence

Running one list of steps after another. Nothing but the context and the world goes from one step to
the next, and a context that a run left behind is taken up again as it is when its entries are the
parameters of another run (`Context.ofParameters_entries`). So the run of two lists is the run of
the first, and if that is a success, the run of the second with the context as its parameters
(`execute_append`).
-/

namespace Runbook

variable {World : Type}

/-- The document with the given steps and nothing else. -/
def Document.ofSteps (raws : List Value) : Value := .object [("steps", .array raws)]

theorem Document.steps_ofSteps (raws : List Value) : steps (some (ofSteps raws)) = .ok raws := rfl

/-- A context whose reserved key holds a mapping is the first context for its own entries. -/
theorem Context.ofParameters_entries {context : Context} (h : context.hasRecords = true) :
    ofParameters context.entries = context := by
  unfold hasRecords at h
  rw [ofParameters, if_pos h]

namespace Interpreter

variable (interpreter : Interpreter World)

/-- The reserved key holds a mapping behind every run of steps. -/
theorem hasRecords_runSteps (raws : List Value) {context : Context}
    (h : context.hasRecords = true) (world : World) :
    (interpreter.runSteps raws context world).context.hasRecords = true := by
  obtain ⟨history, hleads, -⟩ := interpreter.exists_explains_runSteps raws context world
  rw [hleads.context_eq]
  exact History.hasRecords_leave history h

end Interpreter

/-- **A run of two lists of steps is two runs.** If the first one succeeds, the second one starts in
the world that it left, with its context as parameters; the logs are those of both, and all else is
as the second one has it. If the first one does not succeed, it is the whole run. -/
theorem execute_append (interpreter : Interpreter World) (first second : List Value)
    (params : Entries) (world : World) :
    interpreter.execute (Document.ofSteps (first ++ second)) params world =
      let begun := interpreter.execute (Document.ofSteps first) params world
      if begun.1.success then
        let ended := interpreter.execute (Document.ofSteps second) begun.1.context begun.2
        ({ ended.1 with trace := begun.1.trace ++ ended.1.trace, params := params }, ended.2)
      else begun := by
  have hrecords := interpreter.hasRecords_runSteps first (Context.hasRecords_ofParameters params)
    world
  simp only [interpreter.execute_of_steps (Document.steps_ofSteps _),
    Interpreter.runSteps_append]
  generalize interpreter.runSteps first (.ofParameters params) world = stage at hrecords ⊢
  obtain ⟨context, after, trace, ending⟩ := stage
  cases ending with
  | done =>
      have hcontext : Context.ofParameters context.entries = context :=
        Context.ofParameters_entries hrecords
      simp only [Stage.andThen, Interpreter.finish, if_true, hcontext]
      generalize interpreter.runSteps second context after = next
      cases next.ending <;> rfl
  | cancelled => rfl
  | aborted id message => rfl

end Runbook

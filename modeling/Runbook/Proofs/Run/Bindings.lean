import Runbook.Proofs.Run.History

/-!
# Runbook.Proofs.Run.Bindings

What the context holds at the end of a run. A body writes the item of its loop and, unless it ends
the run, its output under the key that the step assigns and under the identifier of the step
(`Event.writes`); beside that it stores its record (`Event.commits`).  No other event writes
anything.

Of several writes to one key the last one counts.  This is shown once for one event
(`get?_leave`, `stepRecord?_leave`) and carried through the history of the run.
-/

namespace Runbook

variable {World : Type}

/-! ## keys and records of a context -/

namespace Context

variable (context : Context)

/-- A key that is set is read back, and no other is touched. -/
theorem get?_set {key other : String} (value : Value) (hother : other ≠ stepsKey) :
    (context.set key value).get? other =
      if key = other then some value else context.get? other := by
  unfold set
  split
  · next hreserved =>
      have hkey : key = stepsKey := by simpa [isReserved] using hreserved
      rw [if_neg (fun h => hother (h.symm.trans hkey))]
  · exact Entries.get?_set key other value context.entries

/-- No binding reaches the records. -/
theorem records_set (key : String) (value : Value) : (context.set key value).records =
    context.records := by
  unfold set
  split
  · rfl
  · next hreserved =>
      have hkey : key ≠ stepsKey := by simpa [isReserved] using hreserved
      simp only [records, get?, Entries.get?_set, if_neg hkey]

/-- A record also puts the output under the name of its step. -/
theorem get?_record {id key : String} (report : Report) (hkey : key ≠ stepsKey) :
    (context.record id report).get? key =
      if id = key then some report.output else context.get? key := by
  unfold record
  rw [get?_set _ _ hkey]
  simp only [get?, Entries.get?_set, if_neg (Ne.symm hkey)]

/-- The record of a step is read back, and no other is touched. -/
theorem stepRecord?_record (id other : String) (report : Report) :
    (context.record id report).stepRecord? other =
      if id = other then some report.toRecord else context.stepRecord? other := by
  unfold stepRecord? record
  rw [records_set]
  have hrecords : (Context.mk (Entries.set stepsKey
      (.object (Entries.set id report.toRecord context.records)) context.entries)).records =
      Entries.set id report.toRecord context.records := by
    simp [records, get?, Entries.get?_set, Value.entries?]
  rw [hrecords, Entries.get?_set]

/-- The parameters are the bindings of the first context, the reserved key apart. -/
theorem get?_ofParameters {params : Entries} {key : String} (hkey : key ≠ stepsKey) :
    (ofParameters params).get? key = Entries.get? key params := by
  unfold ofParameters
  split
  · rfl
  · simp only [get?, Entries.get?_set, if_neg (Ne.symm hkey)]

/-- The first context has the records that the parameters give. -/
theorem records_ofParameters (params : Entries) :
    (ofParameters params).records =
      ((Entries.get? stepsKey params).bind Value.entries?).getD [] := by
  unfold ofParameters
  cases hgiven : (Entries.get? stepsKey params).bind Value.entries? with
  | some entries => simp [records, get?, hgiven]
  | none => simp [records, get?, Entries.get?_set, Value.entries?]

/-- Where the reserved key holds a mapping, it holds the records. -/
theorem get?_stepsKey_of_hasRecords (h : context.hasRecords = true) :
    context.get? stepsKey = some (.object context.records) := by
  unfold hasRecords at h
  unfold records get?
  cases hvalue : Entries.get? stepsKey context.entries with
  | none => simp [hvalue] at h
  | some value =>
      cases value with
      | object entries => simp [Value.entries?]
      | null | bool | number | string | array => simp [hvalue, Value.entries?] at h

end Context

/-! ## what a body writes -/

namespace Body

variable (body : Body World)

/-- The item of the loop under the loop's key. -/
def itemWrites : List (String × Value) :=
  match body.item with
  | some (_, value) => [(body.step.loopVariable, value)]
  | none => []

/-- The output of the body, under the key that the step assigns and then under its identifier. -/
def outputWrites : List (String × Value) :=
  match body.step.assign with
  | some key => [(key, body.report.output), (body.step.id, body.report.output)]
  | none => [(body.step.id, body.report.output)]

/-- The bindings that the body makes, in their order. -/
def writes : List (String × Value) :=
  if body.disposition = .fatal then body.itemWrites else body.itemWrites ++ body.outputWrites

/-- The record that the body stores, unless it ends the run. -/
def commits : List (String × Value) :=
  if body.disposition = .fatal then [] else [(body.step.id, body.kept.toRecord)]

/-- The report that is kept is the one of the body, with a note if its failure was tolerated. -/
structure KeepsReport : Prop where
  /-- A success is kept as it is. -/
  succeeded : body.disposition = .succeeded → body.kept = body.report
  /-- Whatever is kept counts as a success. -/
  success_eq : body.disposition ≠ .fatal → body.kept.success = true
  /-- A tolerated failure keeps its output and its details and gets two more. -/
  tolerated : body.disposition = .tolerated → ∃ details,
    body.kept = ⟨body.report.output, true, some details⟩ ∧
      Entries.get? "allowed_failure" details = some (.bool true) ∧
      Entries.get? "step" details = some (.string body.step.id) ∧
      ∀ key, key ≠ "allowed_failure" → key ≠ "step" →
        Entries.get? key details = Entries.get? key (body.report.metadata.getD [])

/-- What is kept of a report has its output. -/
theorem output_kept : body.kept.output = body.report.output := by
  unfold kept
  split <;> rfl

/-- Every body keeps its report. -/
theorem keepsReport : body.KeepsReport := by
  -- a failed report is kept as a success with the failure in its details
  have hkept : body.report.success = false → body.kept =
      ⟨body.report.output, true, some (Entries.set "step" (.string body.step.id)
        (Entries.set "allowed_failure" (.bool true) (body.report.metadata.getD [])))⟩ := by
    intro hfailed
    simp [kept, hfailed, Interpreter.tolerate, Report.withDetail]
  refine ⟨?_, ?_, ?_⟩
  · intro hsucceeded
    have hs : body.report.success = true := by
      unfold disposition at hsucceeded
      by_cases hs : body.report.success = true
      · exact hs
      · rw [if_neg hs] at hsucceeded
        split at hsucceeded <;> contradiction
    simp [kept, hs]
  · intro _
    cases hs : body.report.success with
    | true => simp [kept, hs]
    | false => rw [hkept hs]
  · intro htolerated
    have hs : body.report.success = false := by
      cases hs : body.report.success with
      | false => rfl
      | true => simp [disposition, hs] at htolerated
    refine ⟨_, hkept hs, ?_, ?_, ?_⟩
    · simp [Entries.get?_set]
    · simp [Entries.get?_set]
    · intro key hallowed hstep
      simp [Entries.get?_set, Ne.symm hallowed, Ne.symm hstep]

end Body

/-! ## what an event writes -/

namespace Event

/-- The bindings that an event makes, in their order. -/
def writes : Event World → List (String × Value)
  | .refused _ | .skipped _ => []
  | .carriedOut body => body.writes

/-- The records that an event stores. -/
def commits : Event World → List (String × Value)
  | .refused _ | .skipped _ => []
  | .carriedOut body => body.commits

end Event

namespace Body

variable (body : Body World) (context : Context)

/-- Within a body the item is bound, and all else is as it was. -/
theorem get?_enter {key : String} (hkey : key ≠ Context.stepsKey) :
    (body.enter context).get? key =
      (Entries.get? key body.itemWrites.reverse).or (context.get? key) := by
  unfold enter Step.enter itemWrites
  cases body.item with
  | none => simp [Entries.get?]
  | some item =>
      simp only [Context.get?_set _ _ hkey, List.reverse_singleton, Entries.get?]
      split <;> simp

/-- A commit binds the output under its keys. -/
theorem get?_commit {key : String} (hkey : key ≠ Context.stepsKey) :
    (Interpreter.commit body.step body.kept context).get? key =
      (Entries.get? key body.outputWrites.reverse).or (context.get? key) := by
  unfold Interpreter.commit outputWrites
  rw [Context.get?_record _ _ hkey, output_kept]
  cases body.step.assign with
  | none =>
      simp only [List.reverse_singleton, Entries.get?]
      split <;> simp
  | some assigned =>
      simp only [Context.get?_set _ _ hkey, List.reverse_cons, List.reverse_nil, List.nil_append,
        List.singleton_append, Entries.get?]
      split
      · simp
      · split <;> simp

/-- Behind a body both have been written, the commit last. -/
theorem get?_leave {key : String} (hkey : key ≠ Context.stepsKey) :
    (body.leave context).get? key =
      (Entries.get? key body.writes.reverse).or (context.get? key) := by
  unfold leave writes
  split
  · exact body.get?_enter context hkey
  · rw [body.get?_commit _ hkey, body.get?_enter context hkey, List.reverse_append,
      Entries.get?_append, Option.or_assoc]

/-- Entering a body records nothing. -/
theorem records_enter : (body.enter context).records = context.records := by
  unfold enter Step.enter
  cases body.item with
  | none => rfl
  | some item => exact context.records_set _ _

/-- A commit records what is kept of the report. -/
theorem stepRecord?_commit (id : String) :
    (Interpreter.commit body.step body.kept context).stepRecord? id =
      if body.step.id = id then some body.kept.toRecord else context.stepRecord? id := by
  unfold Interpreter.commit
  rw [Context.stepRecord?_record]
  cases body.step.assign with
  | none => rfl
  | some assigned => simp only [Context.stepRecord?, Context.records_set]

/-- Behind a body its record is the last one of the step. -/
theorem stepRecord?_leave (id : String) :
    (body.leave context).stepRecord? id =
      (Entries.get? id body.commits.reverse).or (context.stepRecord? id) := by
  unfold leave commits
  split
  · simp [Context.stepRecord?, records_enter, Entries.get?]
  · rw [body.stepRecord?_commit]
    simp only [Context.stepRecord?, records_enter, List.reverse_singleton, Entries.get?]
    split <;> simp

/-- A body keeps the records. -/
theorem hasRecords_leave (h : context.hasRecords = true) :
    (body.leave context).hasRecords = true := by
  unfold leave
  split
  · unfold enter Step.enter
    cases body.item with
    | none => exact h
    | some item => exact Context.hasRecords_set h _ _
  · exact Context.hasRecords_record _ _ _

end Body

/-! ## what a history writes -/

namespace History

/-- The context behind a history. -/
def leave (history : List (Event World)) (context : Context) : Context :=
  history.foldl (fun context event => event.leave context) context

/-- The context behind two histories in sequence. -/
theorem leave_append (first second : List (Event World)) (context : Context) :
    leave (first ++ second) context = leave second (leave first context) :=
  List.foldl_append

/-- The bindings of a history, in their order. -/
def writes (history : List (Event World)) : List (String × Value) := history.flatMap Event.writes

/-- The records of a history, in their order. -/
def commits (history : List (Event World)) : List (String × Value) := history.flatMap Event.commits

/-- A history leads to the context that its events leave behind. -/
theorem Leads.context_eq {interpreter : Interpreter World} {tasks : List Task}
    {history : List (Event World)} {context context' : Context} {before after : World}
    {ending : Ending}
    (h : Leads interpreter tasks history context before context' after ending) :
    context' = leave history context := by
  induction h with
  | done => rfl
  | cancelled hcancelled => rfl
  | opened hgoing hread hholds hitems leads ih => exact ih
  | next hgoing happens hgoes leads ih => exact ih
  | ended hgoing happens hends => rfl

/-- Under every key but the reserved one stands the last value that was written to it. -/
theorem get?_leave (history : List (Event World)) (context : Context) {key : String}
    (hkey : key ≠ Context.stepsKey) :
    (leave history context).get? key =
      (Entries.get? key (writes history).reverse).or (context.get? key) := by
  induction history generalizing context with
  | nil => simp [leave, writes, Entries.get?]
  | cons event rest ih =>
      have hevent : (event.leave context).get? key =
          (Entries.get? key event.writes.reverse).or (context.get? key) := by
        cases event with
        | refused raw | skipped step => simp [Event.leave, Event.writes, Entries.get?]
        | carriedOut body => exact body.get?_leave context hkey
      have hrest : (leave rest (event.leave context)).get? key =
          (Entries.get? key (writes rest).reverse).or ((event.leave context).get? key) :=
        ih (event.leave context)
      rw [hevent, ← Option.or_assoc, ← Entries.get?_append, ← List.reverse_append] at hrest
      exact hrest

/-- Under every identifier stands the last record that was stored for it. -/
theorem stepRecord?_leave (history : List (Event World)) (context : Context) (id : String) :
    (leave history context).stepRecord? id =
      (Entries.get? id (commits history).reverse).or (context.stepRecord? id) := by
  induction history generalizing context with
  | nil => simp [leave, commits, Entries.get?]
  | cons event rest ih =>
      have hevent : (event.leave context).stepRecord? id =
          (Entries.get? id event.commits.reverse).or (context.stepRecord? id) := by
        cases event with
        | refused raw | skipped step => simp [Event.leave, Event.commits, Entries.get?]
        | carriedOut body => exact body.stepRecord?_leave context id
      have hrest : (leave rest (event.leave context)).stepRecord? id =
          (Entries.get? id (commits rest).reverse).or ((event.leave context).stepRecord? id) :=
        ih (event.leave context)
      rw [hevent, ← Option.or_assoc, ← Entries.get?_append, ← List.reverse_append] at hrest
      exact hrest

/-- The reserved key holds a mapping behind every history. -/
theorem hasRecords_leave (history : List (Event World)) {context : Context}
    (h : context.hasRecords = true) : (leave history context).hasRecords = true := by
  induction history generalizing context with
  | nil => exact h
  | cons event rest ih =>
      apply ih
      cases event with
      | refused raw | skipped step => exact h
      | carriedOut body => exact body.hasRecords_leave context h

end History

/-- **The context of a run is what its history wrote.** The history has the logs of the run, and
the context at its end is the first one with the events applied. The reserved key holds a mapping
with the last record of every identifier, and every other key the last value written to it; what
was never written is as the parameters have it, and the parameters come back unchanged. -/
theorem context_of_writes (interpreter : Interpreter World) (document : Value) (params : Entries)
    (world : World) :
    ∃ (history : List (Event World)) (context : Context) (ending : Ending),
      History.Leads interpreter ((Interpreter.stepsOf document).map .value) history
        (.ofParameters params) world context (interpreter.execute document params world).2 ending ∧
      (interpreter.execute document params world).1.trace = History.trace history ∧
      (interpreter.execute document params world).1.context = context.entries ∧
      context = history.foldl (fun context event => event.leave context) (.ofParameters params) ∧
      (∃ records, context.get? Context.stepsKey = some (.object records) ∧
        ∀ id, Entries.get? id records = (Entries.get? id (History.commits history).reverse).or
          (Entries.get? id
            (((Entries.get? Context.stepsKey params).bind Value.entries?).getD []))) ∧
      (∀ key, key ≠ Context.stepsKey → context.get? key =
        (Entries.get? key (History.writes history).reverse).or (Entries.get? key params)) ∧
      (∀ body, .carriedOut body ∈ history → body.KeepsReport) ∧
      (interpreter.execute document params world).1.params = params := by
  obtain ⟨history, context, ending, hleads, hcontext, htrace, hparams⟩ :=
    interpreter.exists_history document params world
  have heq : context = History.leave history (.ofParameters params) := hleads.context_eq
  refine ⟨history, context, ending, hleads, htrace, hcontext, heq, ?_, ?_, ?_, hparams⟩
  · have hhas : context.hasRecords = true := by
      rw [heq]
      exact History.hasRecords_leave history (Context.hasRecords_ofParameters params)
    refine ⟨context.records, context.get?_stepsKey_of_hasRecords hhas, ?_⟩
    intro id
    have hrecord := History.stepRecord?_leave history (.ofParameters params) id
    rw [← heq] at hrecord
    simpa only [Context.stepRecord?, Context.records_ofParameters] using hrecord
  · intro key hkey
    rw [heq, History.get?_leave history _ hkey, Context.get?_ofParameters hkey]
  · intro body _
    exact body.keepsReport

end Runbook

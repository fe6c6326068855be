import Mathlib.Logic.Function.Iterate
import Runbook.Run.Interpreter

/-!
# Runbook.Proofs.Run.History

What a run did, event by event. An event is one visit: of a value that is no step, of a step that
was passed over, or of a body that was carried out (`Body`). A run has tasks, which are the values
of its document and the items of its loops, and it does them in their order; `History.Leads` tells
which events the tasks come to, where each event happens in the context and the world that the
events before it left behind.

The main fact is `exists_history`: every run of a document has a history that accounts for its logs,
its context and its world. What holds of all runs is then shown of histories, by induction on
`History.Leads`.
-/

namespace Runbook

variable {World : Type}

/-! ## invocations -/

namespace Invocation

/-- Did the capability report a success? A raised error is a failure. -/
def succeeded (invocation : Invocation) : Bool :=
  match invocation.attempt.result with
  | .ok report => report.success
  | .error _ => false

/-- The output as text, or the text of the error that was raised. -/
def text (invocation : Invocation) : String :=
  match invocation.attempt.result with
  | .ok report => report.output.display
  | .error text => text

/-- The line that an invocation leaves in the transcript. -/
def line (invocation : Invocation) : String :=
  invocation.id ++ ":" ++ invocation.tool ++ ":" ++ invocation.text

/-- An invocation succeeded exactly if its report is a success. -/
theorem success_report (invocation : Invocation) :
    invocation.attempt.report.success = invocation.succeeded := by
  unfold succeeded Attempt.report
  cases invocation.attempt.result with
  | ok report => rfl
  | error text => rfl

/-- The line that the interpreter writes for an attempt is the line of its invocation. -/
theorem attemptLine_eq_line (invocation : Invocation) :
    Interpreter.attemptLine invocation.id invocation.tool invocation.attempt = invocation.line := by
  unfold Interpreter.attemptLine line text Attempt.report
  cases invocation.attempt.result with
  | ok report => rfl
  | error text => rfl

end Invocation

/-- The invocations, made one after the other with the capabilities of the registry, give the
results that they have and lead from the world `before` to the world `after`. -/
def Replays (registry : Registry World) : List Invocation → World → World → Prop
  | [], before, after => after = before
  | invocation :: rest, before, after =>
    ∃ capability, Registry.find? invocation.tool registry = some capability ∧
      (capability.invoke invocation.args before).1 = invocation.attempt.result ∧
      Replays registry rest (capability.invoke invocation.args before).2 after

namespace Replays

variable {registry : Registry World}

/-- Replays in sequence. -/
theorem append {first second : List Invocation} {before middle after : World}
    (h₁ : Replays registry first before middle) (h₂ : Replays registry second middle after) :
    Replays registry (first ++ second) before after := by
  induction first generalizing before with
  | nil =>
      simp only [Replays] at h₁
      subst h₁
      exact h₂
  | cons invocation rest ih =>
      obtain ⟨capability, hfind, hresult, hrest⟩ := h₁
      exact ⟨capability, hfind, hresult, ih hrest⟩

/-- The world between two parts of a replay. -/
theorem split {first second : List Invocation} {before after : World}
    (h : Replays registry (first ++ second) before after) :
    ∃ middle, Replays registry first before middle ∧ Replays registry second middle after := by
  induction first generalizing before with
  | nil => exact ⟨before, rfl, h⟩
  | cons invocation rest ih =>
      obtain ⟨capability, hfind, hresult, hrest⟩ := h
      obtain ⟨middle, hfirst, hsecond⟩ := ih hrest
      exact ⟨middle, ⟨capability, hfind, hresult, hfirst⟩, hsecond⟩

/-- Invocations always lead to the same world. -/
theorem unique {invocations : List Invocation} {before after after' : World}
    (h : Replays registry invocations before after)
    (h' : Replays registry invocations before after') : after = after' := by
  induction invocations generalizing before with
  | nil => exact h.trans h'.symm
  | cons invocation rest ih =>
      obtain ⟨capability, hfind, -, hrest⟩ := h
      obtain ⟨capability', hfind', -, hrest'⟩ := h'
      obtain rfl := Option.some.inj (hfind.symm.trans hfind')
      exact ih hrest hrest'

end Replays

/-- Groups of invocations that a run made, one after the other. In front of each group the run looks
at its flag, once or more often, and perhaps again behind the last one; nothing else but the
invocations and what others do up to these looks leads from the world `before` to the world
`after`. -/
def Interpreter.Retraces (interpreter : Interpreter World) :
    List (List Invocation) → World → World → Prop
  | [], before, after => ∃ looks, after = interpreter.meanwhile^[looks] before
  | group :: rest, before, after => ∃ looks middle,
    Replays interpreter.registry group (interpreter.meanwhile^[looks + 1] before) middle ∧
      Retraces interpreter rest middle after

/-- One look more in front of everything. -/
theorem Interpreter.Retraces.look {interpreter : Interpreter World}
    {groups : List (List Invocation)} {before after : World}
    (h : interpreter.Retraces groups (interpreter.meanwhile before) after) :
    interpreter.Retraces groups before after := by
  cases groups with
  | nil =>
      obtain ⟨looks, hafter⟩ := h
      exact ⟨looks + 1, hafter⟩
  | cons group rest =>
      obtain ⟨looks, middle, hgroup, hrest⟩ := h
      exact ⟨looks + 1, middle, hgroup, hrest⟩

/-- Where nobody else changes the world, all the invocations replay one after the other. -/
theorem Interpreter.Retraces.replays {interpreter : Interpreter World}
    (halone : ∀ world, interpreter.meanwhile world = world) {groups : List (List Invocation)}
    {before after : World} (h : interpreter.Retraces groups before after) :
    Replays interpreter.registry groups.flatten before after := by
  have hid : interpreter.meanwhile = id := funext halone
  induction groups generalizing before with
  | nil =>
      obtain ⟨looks, hafter⟩ := h
      rwa [hid, Function.iterate_id] at hafter
  | cons group rest ih =>
      obtain ⟨looks, middle, hgroup, hrest⟩ := h
      rw [hid, Function.iterate_id] at hgroup
      rw [List.flatten_cons]
      exact hgroup.append (ih hrest)

/-! ## attempts -/

section Attempts

variable (capability : Capability World) (args : Entries) (base : Option Delay)

/-- All attempts but the last one failed, and a failed last one means that no retries were
left. -/
theorem attemptsFrom_split (number retries : Nat) (world : World) :
    ∃ earlier last, (attemptsFrom capability args base number retries world).all =
        earlier ++ [last] ∧
      (attemptsFrom capability args base number retries world).last = last.report ∧
      (∀ attempt ∈ earlier, attempt.report.success = false) ∧ earlier.length ≤ retries ∧
      (last.report.success = false → earlier.length = retries) := by
  induction retries generalizing number world with
  | zero =>
      exact ⟨[], ⟨(capability.invoke args world).1, ⟨0, 0⟩⟩, by
        simp [attemptsFrom, Attempt.report]⟩
  | succ retries ih =>
      simp only [attemptsFrom]
      by_cases hs : (Report.ofResult (capability.invoke args world).1).success = true
      · rw [if_pos hs]
        -- the first success ends the attempts, with retries left or not
        refine ⟨[], ⟨(capability.invoke args world).1, ⟨0, 0⟩⟩, rfl, rfl, by simp, by simp, ?_⟩
        intro hfailed
        rw [Attempt.report, hs] at hfailed
        contradiction
      · rw [if_neg hs]
        obtain ⟨earlier, last, hall, hlast, hearlier, hle, hfull⟩ :=
          ih (number + 1) (capability.invoke args world).2
        refine ⟨⟨(capability.invoke args world).1, base.elim ⟨0, 0⟩ fun d => d.backoff number⟩ ::
          earlier, last, ?_, hlast, ?_, ?_, ?_⟩
        · rw [hall, List.cons_append]
        · intro attempt hmem
          rcases List.mem_cons.mp hmem with rfl | hmem
          · simpa [Attempt.report] using hs
          · exact hearlier attempt hmem
        · simpa using hle
        · intro hfailed
          simpa using hfull hfailed

/-- The attempts of a body replay. -/
theorem replays_attemptsFrom {registry : Registry World} {tool : String}
    (hfind : Registry.find? tool registry = some capability) (id : String)
    (iteration : Option Nat) (number retries : Nat) (world : World) :
    Replays registry
      ((attemptsFrom capability args base number retries world).all.map fun attempt =>
        ⟨id, iteration, tool, args, attempt⟩)
      world (attemptsFrom capability args base number retries world).world := by
  induction retries generalizing number world with
  | zero => exact ⟨capability, hfind, rfl, rfl⟩
  | succ retries ih =>
      simp only [attemptsFrom]
      split
      · exact ⟨capability, hfind, rfl, rfl⟩
      · exact ⟨capability, hfind, rfl, ih (number + 1) _⟩

end Attempts

/-! ## bodies -/

/-- The context in which a body of the step runs: the item, if there is one, is bound. -/
def Step.enter (step : Step) (item : Option (Nat × Value)) (context : Context) : Context :=
  match item with
  | some (_, value) => context.set step.loopVariable value
  | none => context

/-- One time that a step was carried out. -/
structure Body (World : Type) where
  /-- The step. -/
  step : Step
  /-- The place of the item and the item, if the step is a loop. -/
  item : Option (Nat × Value)
  /-- The world in which the run came to the step. -/
  start : World
  /-- The invocations that were made. -/
  invocations : List Invocation
  /-- What the last invocation reported, or why there was none. -/
  report : Report

namespace Body

/-- What became of the body. -/
def disposition (body : Body World) : Disposition :=
  if body.report.success then .succeeded
  else if body.step.allowFailure then .tolerated
  else .fatal

/-- The report that goes into the context. -/
def kept (body : Body World) : Report :=
  if body.report.success then body.report else Interpreter.tolerate body.step.id body.report

/-- The visit that the run notes for the body. -/
def visit (body : Body World) : Visit :=
  ⟨body.step.id, body.disposition, body.invocations.length, body.item.map (·.1)⟩

/-- The context in which the body runs. -/
def enter (body : Body World) (context : Context) : Context := body.step.enter body.item context

/-- The context behind the body: unless the body ends the run, its report is kept. -/
def leave (body : Body World) (context : Context) : Context :=
  if body.disposition = .fatal then body.enter context
  else Interpreter.commit body.step body.kept (body.enter context)

/-- How the run goes on behind the body. -/
def ending (body : Body World) (message : String) : Ending :=
  if body.disposition = .fatal then .aborted body.step.id message else .done

end Body

/-- The capability that a step names, if it is registered. -/
def Interpreter.capability? (interpreter : Interpreter World) (step : Step) :
    Option (Capability World) :=
  step.tool.bind fun tool => Registry.find? tool interpreter.registry

/-- The failure of a step whose capability is not registered. -/
def Step.unknownTool (step : Step) : Report :=
  (Report.failed (.string ("step " ++ step.id ++ " references unknown tool '" ++
    step.tool.getD "" ++ "'"))).withDetail "step" (.string step.id)

/-- The body can run in this context and this world, and leaves the world `after` behind. -/
structure Body.Runs (interpreter : Interpreter World) (context : Context) (before : World)
    (body : Body World) (after : World) : Prop where
  /-- It starts in the world before. -/
  start_eq : body.start = before
  /-- The invocations are those of the step, with one rendering of its arguments. -/
  made : ∀ invocation ∈ body.invocations, invocation.id = body.step.id ∧
    invocation.iteration = body.item.map (·.1) ∧ body.step.tool = some invocation.tool ∧
    invocation.args =
      Template.renderEntries interpreter.resolver (body.enter context) body.step.args
  /-- They are what the capability does from the world before. -/
  replays : Replays interpreter.registry body.invocations before after
  /-- Without a capability there are none. -/
  unknown : interpreter.capability? body.step = none →
    body.invocations = [] ∧ body.report = body.step.unknownTool
  /-- With one, only the last may succeed, and only a failed last one uses all retries up. -/
  tried : (interpreter.capability? body.step).isSome → ∃ earlier last,
    body.invocations = earlier ++ [last] ∧ body.report = last.attempt.report ∧
      (∀ invocation ∈ earlier, invocation.succeeded = false) ∧
      earlier.length ≤ body.step.retries ∧
      (last.succeeded = false → earlier.length = body.step.retries)

/-! ## tasks and events -/

/-- What a run has to do next. -/
inductive Task where
  /-- It comes to a value of the document. -/
  | value (raw : Value)
  /-- It carries out the step that a value is, for the item of a loop at this place. -/
  | item (raw : Value) (place : Nat) (value : Value)

/-- The value of the document that a task belongs to. -/
def Task.raw : Task → Value
  | .value raw | .item raw _ _ => raw

/-- The tasks of a loop, the first of whose items has the given place. -/
def loopTasks (raw : Value) (place : Nat) (items : List Value) : List Task :=
  (items.zipIdx place).map fun (value, place) => .item raw place value

/-- What a run does at one visit. -/
inductive Event (World : Type) where
  /-- It comes to a value that is no step. -/
  | refused (raw : Value)
  /-- It passes a step over. -/
  | skipped (step : Step)
  /-- It carries a step out, once. -/
  | carriedOut (body : Body World)

namespace Event

/-- The visit that the run notes. -/
def visit : Event World → Visit
  | .refused raw => ⟨Step.idOfValue raw, .fatal, 0, none⟩
  | .skipped step => ⟨step.id, .skipped, 0, none⟩
  | .carriedOut body => body.visit

/-- The invocations that belong to the event. -/
def invocations : Event World → List Invocation
  | .refused _ | .skipped _ => []
  | .carriedOut body => body.invocations

/-- The lines of the transcript. -/
def lines : Event World → List String
  | .refused _ => []
  | .skipped step => [step.id ++ ":skipped"]
  | .carriedOut body => body.invocations.map Invocation.line

/-- The context behind the event. -/
def leave : Event World → Context → Context
  | .refused _, context | .skipped _, context => context
  | .carriedOut body, context => body.leave context

/-- Does the run end with the event? -/
def endsRun (event : Event World) : Bool := event.visit.disposition.endsRun

/-- The event is what the task comes to in this context and this world, and leaves the world `after`
behind. -/
inductive Happens (interpreter : Interpreter World) :
    Task → Context → World → Event World → World → Prop where
  | refused {raw : Value} {misfit : Misfit} {context : Context} {world : World}
      (hread : Step.ofValue raw = .error misfit) :
      Happens interpreter (.value raw) context world (.refused raw) world
  | skipped {raw : Value} {step : Step} {context : Context} {world : World}
      (hread : Step.ofValue raw = .ok step) (hholds : interpreter.holds step context = false) :
      Happens interpreter (.value raw) context world (.skipped step) world
  | once {raw : Value} {body : Body World} {context : Context} {before after : World}
      (hread : Step.ofValue raw = .ok body.step)
      (hholds : interpreter.holds body.step context = true)
      (hitems : interpreter.items? body.step context = none) (hitem : body.item = none)
      (hruns : body.Runs interpreter context before after) :
      Happens interpreter (.value raw) context before (.carriedOut body) after
  | item {raw : Value} {place : Nat} {value : Value} {body : Body World} {context : Context}
      {before after : World} (hread : Step.ofValue raw = .ok body.step)
      (hitem : body.item = some (place, value))
      (hruns : body.Runs interpreter context before after) :
      Happens interpreter (.item raw place value) context before (.carriedOut body) after

/-- A body that is an event of a run could run where the event happened. -/
theorem Happens.runs {interpreter : Interpreter World} {task : Task} {body : Body World}
    {context : Context} {before after : World}
    (h : (carriedOut body).Happens interpreter task context before after) :
    body.Runs interpreter context before after := by
  cases h with
  | once hread hholds hitems hitem hruns => exact hruns
  | item hread hitem hruns => exact hruns

end Event

/-! ## histories -/

namespace History

/-- The logs of a history. -/
def trace (history : List (Event World)) : Trace :=
  ⟨history.flatMap Event.lines, history.map Event.visit, history.flatMap Event.invocations⟩

/-- The run of the tasks, one event after the other. In front of each task the run looks at its
flag: if it finds the flag set it is cancelled there, and else it comes to the task in the context
that the events before left behind and in the world that the look has found. A step with a loop is
replaced by the tasks of its items as soon as the run comes to it. -/
inductive Leads (interpreter : Interpreter World) :
    List Task → List (Event World) → Context → World → Context → World → Ending → Prop where
  | done {context : Context} {world : World} :
      Leads interpreter [] [] context world context world .done
  | cancelled {task : Task} {todo : List Task} {context : Context} {world : World}
      (hcancelled : interpreter.isCancelled (interpreter.meanwhile world) = true) :
      Leads interpreter (task :: todo) [] context world context (interpreter.meanwhile world)
        .cancelled
  | opened {raw : Value} {step : Step} {items : List Value} {todo : List Task}
      {history : List (Event World)} {context context' : Context} {before after : World}
      {ending : Ending} (hgoing : interpreter.isCancelled (interpreter.meanwhile before) = false)
      (hread : Step.ofValue raw = .ok step) (hholds : interpreter.holds step context = true)
      (hitems : interpreter.items? step context = some items)
      (leads : Leads interpreter (loopTasks raw 0 items ++ todo) history context
        (interpreter.meanwhile before) context' after ending) :
      Leads interpreter (.value raw :: todo) history context before context' after ending
  | next {task : Task} {todo : List Task} {event : Event World} {rest : List (Event World)}
      {context context' : Context} {before middle after : World} {ending : Ending}
      (hgoing : interpreter.isCancelled (interpreter.meanwhile before) = false)
      (happens : event.Happens interpreter task context (interpreter.meanwhile before) middle)
      (hgoes : event.endsRun = false)
      (leads : Leads interpreter todo rest (event.leave context) middle context' after ending) :
      Leads interpreter (task :: todo) (event :: rest) context before context' after ending
  | ended {task : Task} {todo : List Task} {event : Event World} {context : Context}
      {before after : World} {message : String}
      (hgoing : interpreter.isCancelled (interpreter.meanwhile before) = false)
      (happens : event.Happens interpreter task context (interpreter.meanwhile before) after)
      (hends : event.endsRun = true) :
      Leads interpreter (task :: todo) [event] context before (event.leave context) after
        (.aborted event.visit.id message)

variable {interpreter : Interpreter World} {tasks todo : List Task}
  {first second : List (Event World)}
  {c₁ c₂ c₃ : Context} {w₁ w₂ w₃ : World} {ending : Ending}

/-- Histories in sequence. -/
theorem Leads.append (h₁ : Leads interpreter tasks first c₁ w₁ c₂ w₂ .done)
    (h₂ : Leads interpreter todo second c₂ w₂ c₃ w₃ ending) :
    Leads interpreter (tasks ++ todo) (first ++ second) c₁ w₁ c₃ w₃ ending := by
  generalize hdone : Ending.done = how at h₁
  induction h₁ with
  | done => exact h₂
  | cancelled hcancelled => contradiction
  | opened hgoing hread hholds hitems leads ih =>
      have hopened := ih h₂ hdone
      rw [List.append_assoc] at hopened
      exact .opened hgoing hread hholds hitems hopened
  | next hgoing happens hgoes leads ih => exact .next hgoing happens hgoes (ih h₂ hdone)
  | ended hgoing happens hends => contradiction

/-- A run that stops leaves all further tasks undone. -/
theorem Leads.append_of_ne_done (h : Leads interpreter tasks first c₁ w₁ c₂ w₂ ending)
    (hstops : ending ≠ .done) : Leads interpreter (tasks ++ todo) first c₁ w₁ c₂ w₂ ending := by
  induction h with
  | done => contradiction
  | cancelled hcancelled => exact .cancelled hcancelled
  | opened hgoing hread hholds hitems leads ih =>
      have hopened := ih hstops
      rw [List.append_assoc] at hopened
      exact .opened hgoing hread hholds hitems hopened
  | next hgoing happens hgoes leads ih => exact .next hgoing happens hgoes (ih hstops)
  | ended hgoing happens hends => exact .ended hgoing happens hends

/-- The logs of two histories in sequence. -/
theorem trace_append (first second : List (Event World)) :
    trace (first ++ second) = trace first ++ trace second := by
  simp [trace, Trace.append_def]

/-- The history accounts for the part of a run that does the tasks, from this context and this world
on. -/
structure Explains (interpreter : Interpreter World) (tasks : List Task)
    (history : List (Event World)) (context : Context) (world : World) (stage : Stage World) :
    Prop where
  /-- It leads to where the part ended. -/
  leads : Leads interpreter tasks history context world stage.context stage.world stage.ending
  /-- Its logs are those of the part. -/
  trace_eq : stage.trace = trace history

/-- Parts in sequence have a history if each of them has one. -/
theorem exists_explains_andThen {context : Context} {world : World} {stage : Stage World}
    {next : Context → World → Stage World}
    (h₁ : ∃ history, Explains interpreter tasks history context world stage)
    (h₂ : ∀ c w, ∃ history, Explains interpreter todo history c w (next c w)) :
    ∃ history, Explains interpreter (tasks ++ todo) history context world (stage.andThen next) := by
  obtain ⟨first, hleads, htrace⟩ := h₁
  unfold Stage.andThen
  cases hending : stage.ending with
  | done =>
      obtain ⟨second, hsecond⟩ := h₂ stage.context stage.world
      rw [hending] at hleads
      refine ⟨first ++ second, hleads.append hsecond.leads, ?_⟩
      simp only [htrace, hsecond.trace_eq, trace_append]
  | cancelled => exact ⟨first, hleads.append_of_ne_done (by simp [hending]), htrace⟩
  | aborted id message => exact ⟨first, hleads.append_of_ne_done (by simp [hending]), htrace⟩

end History

/-! ## the history of a run -/

namespace Interpreter

variable (interpreter : Interpreter World)

/-- Closing a body notes its visit and leaves its context behind. -/
theorem settle_body (body : Body World) (message : String) (context : Context) (world : World) :
    settle body.step (body.item.map (·.1)) body.report body.invocations.length message
        (body.enter context) world =
      ⟨body.leave context, world, ⟨[], [body.visit], []⟩, body.ending message⟩ := by
  unfold settle Body.leave Body.visit Body.ending Body.kept Body.disposition
  by_cases hs : body.report.success = true
  · simp [hs]
  · by_cases ha : body.step.allowFailure = true
    · simp [hs, ha]
    · simp [hs, ha]

/-- A step without a registered capability is carried out without an invocation. -/
theorem runBody_unknown {step : Step} (hnone : interpreter.capability? step = none)
    (iteration : Option Nat) (context : Context) (world : World) :
    ∃ message, interpreter.runBody step iteration context world =
      settle step iteration step.unknownTool 0 message context world := by
  unfold runBody
  cases htool : step.tool with
  | none => exact ⟨_, by simp [Step.unknownTool, htool]; rfl⟩
  | some tool =>
      have hfind : Registry.find? tool interpreter.registry = none := by
        simpa [capability?, htool] using hnone
      exact ⟨_, by simp [Step.unknownTool, htool, hfind]; rfl⟩

/-- A step with a registered capability is carried out by its attempts. -/
theorem runBody_known {step : Step} {tool : String} {capability : Capability World}
    (htool : step.tool = some tool)
    (hfind : Registry.find? tool interpreter.registry = some capability)
    (iteration : Option Nat) (context : Context) (world : World) {args : Entries}
    (hargs : args = Template.renderEntries interpreter.resolver context step.args)
    {tries : Attempts World}
    (htries : tries = attempts capability args (interpreter.delay? step) step.retries world) :
    ∃ message settled,
      settled = settle step iteration tries.last tries.all.length message context tries.world ∧
      interpreter.runBody step iteration context world =
        { settled with
          trace := ⟨tries.all.map (attemptLine step.id tool), [],
            tries.all.map fun attempt => ⟨step.id, iteration, tool, args, attempt⟩⟩ ++
              settled.trace } := by
  subst hargs htries
  unfold runBody
  exact ⟨_, _, rfl, by simp only [htool, hfind, Option.bind_some, Option.map_some]; rfl⟩

/-- The body of a step without a registered capability. -/
def unknownBody (step : Step) (item : Option (Nat × Value)) (world : World) : Body World :=
  ⟨step, item, world, [], step.unknownTool⟩

/-- The body of a step whose capability was attempted. -/
def attemptedBody (step : Step) (item : Option (Nat × Value)) (world : World) (tool : String)
    (args : Entries) (tries : Attempts World) : Body World :=
  ⟨step, item, world, tries.all.map fun attempt => ⟨step.id, item.map (·.1), tool, args, attempt⟩,
    tries.last⟩

/-- A body without a registered capability leaves the world alone. -/
theorem runs_unknownBody {step : Step} (hcap : interpreter.capability? step = none)
    (item : Option (Nat × Value)) (context : Context) (world : World) :
    (unknownBody step item world).Runs interpreter context world world where
  start_eq := rfl
  made := by simp [unknownBody]
  replays := rfl
  unknown _ := ⟨rfl, rfl⟩
  tried hsome := by simp [unknownBody, hcap] at hsome

/-- A body whose capability was attempted leaves the world of its last attempt behind. -/
theorem runs_attemptedBody {step : Step} {tool : String} {capability : Capability World}
    (htool : step.tool = some tool)
    (hfind : Registry.find? tool interpreter.registry = some capability)
    (item : Option (Nat × Value)) (context : Context) (world : World) {args : Entries}
    (hargs : args =
      Template.renderEntries interpreter.resolver (step.enter item context) step.args)
    {tries : Attempts World}
    (htries : tries = attempts capability args (interpreter.delay? step) step.retries world) :
    (attemptedBody step item world tool args tries).Runs interpreter context world tries.world := by
  have hcap : interpreter.capability? step = some capability := by
    simp [capability?, htool, hfind]
  refine ⟨rfl, ?_, ?_, ?_, ?_⟩
  · intro invocation hmem
    simp only [attemptedBody, List.mem_map] at hmem
    obtain ⟨attempt, -, rfl⟩ := hmem
    exact ⟨rfl, rfl, htool, hargs⟩
  · rw [htries]
    exact replays_attemptsFrom capability args _ hfind step.id _ 1 step.retries world
  · intro hnone
    simp [attemptedBody, hcap] at hnone
  · intro _
    obtain ⟨earlier, last, hall, hlast, hfailed, hle, hfull⟩ :=
      attemptsFrom_split capability args (interpreter.delay? step) 1 step.retries world
    refine ⟨earlier.map fun attempt => ⟨step.id, item.map (·.1), tool, args, attempt⟩,
      ⟨step.id, item.map (·.1), tool, args, last⟩, ?_, ?_, ?_, ?_, ?_⟩
    · simp [attemptedBody, htries, attempts, hall]
    · rw [← hlast, attemptedBody, htries, attempts]
    · intro invocation hmem
      simp only [List.mem_map] at hmem
      obtain ⟨attempt, hmem, rfl⟩ := hmem
      rw [← Invocation.success_report]
      exact hfailed attempt hmem
    · simpa [attemptedBody] using hle
    · intro hlast'
      rw [← Invocation.success_report] at hlast'
      simpa [attemptedBody] using hfull hlast'

/-- A body is one event, and the run goes on behind it unless it ends there. -/
theorem explains_body {task : Task} {body : Body World} {context : Context}
    {world found after : World} (hfound : interpreter.meanwhile world = found)
    (hgoing : interpreter.isCancelled found = false)
    (happens : (Event.carriedOut body).Happens interpreter task context found after)
    (message : String) :
    History.Explains interpreter [task] [.carriedOut body] context world
      ⟨body.leave context, after, History.trace [.carriedOut body], body.ending message⟩ := by
  subst hfound
  refine ⟨?_, rfl⟩
  unfold Body.ending
  by_cases hfatal : body.disposition = .fatal
  · rw [if_pos hfatal]
    exact .ended hgoing happens (by simp [Event.endsRun, Event.visit, Body.visit, hfatal,
      Disposition.endsRun])
  · rw [if_neg hfatal]
    exact .next hgoing happens (by simp [Event.endsRun, Event.visit, Body.visit, hfatal,
      Disposition.endsRun]) .done

/-- A step with a registered capability is carried out as the body of its attempts. -/
theorem runBody_attemptedBody {step : Step} {tool : String} {capability : Capability World}
    (htool : step.tool = some tool)
    (hfind : Registry.find? tool interpreter.registry = some capability)
    (item : Option (Nat × Value)) (context : Context) (world : World) {args : Entries}
    (hargs : args =
      Template.renderEntries interpreter.resolver (step.enter item context) step.args)
    {tries : Attempts World}
    (htries : tries = attempts capability args (interpreter.delay? step) step.retries world)
    {body : Body World} (hbody : body = attemptedBody step item world tool args tries) :
    ∃ message, interpreter.runBody step (item.map (·.1)) (step.enter item context) world =
      ⟨body.leave context, tries.world, History.trace [.carriedOut body], body.ending message⟩ := by
  obtain ⟨message, settled, hsettled, hrun⟩ := interpreter.runBody_known htool hfind
    (item.map (·.1)) (step.enter item context) world hargs htries
  refine ⟨message, ?_⟩
  have hlines : tries.all.map (attemptLine step.id tool) =
      body.invocations.map Invocation.line := by
    rw [hbody, attemptedBody, List.map_map]
    exact List.map_congr_left fun attempt _ =>
      Invocation.attemptLine_eq_line ⟨step.id, item.map (·.1), tool, args, attempt⟩
  have hinvocations : body.invocations = tries.all.map fun attempt =>
      ⟨step.id, item.map (·.1), tool, args, attempt⟩ := by
    rw [hbody, attemptedBody]
  have hstage : settled = ⟨body.leave context, tries.world,
      ⟨[], [body.visit], []⟩, body.ending message⟩ := by
    have hsettle := settle_body body message context tries.world
    subst hbody
    rw [hsettled, ← hsettle]
    simp [attemptedBody, Body.enter]
  rw [hrun, hstage, hlines, ← hinvocations]
  simp [History.trace, Event.lines, Event.visit, Event.invocations, Trace.append_def]

/-- Carrying a step out once is one event, with the item that is bound before. -/
theorem exists_explains_runBody (task : Task) (step : Step) (item : Option (Nat × Value))
    (context : Context) {world found : World} (hfound : interpreter.meanwhile world = found)
    (hgoing : interpreter.isCancelled found = false)
    (htask : ∀ body after, body.step = step → body.item = item →
      body.Runs interpreter context found after →
      (Event.carriedOut body).Happens interpreter task context found after) :
    ∃ history, History.Explains interpreter [task] history context world
      (interpreter.runBody step (item.map (·.1)) (step.enter item context) found) := by
  cases hcap : interpreter.capability? step with
  | none =>
      have hruns := interpreter.runs_unknownBody hcap item context found
      obtain ⟨message, hrun⟩ := interpreter.runBody_unknown hcap (item.map (·.1))
        (step.enter item context) found
      rw [hrun.trans (settle_body (unknownBody step item found) message context found)]
      exact ⟨_, interpreter.explains_body hfound hgoing (htask _ _ rfl rfl hruns) message⟩
  | some capability =>
      obtain ⟨tool, htool, hfind⟩ := Option.bind_eq_some_iff.mp hcap
      have hruns := interpreter.runs_attemptedBody htool hfind item context found rfl rfl
      obtain ⟨message, hrun⟩ := interpreter.runBody_attemptedBody htool hfind item context found
        rfl rfl rfl
      rw [hrun]
      exact ⟨_, interpreter.explains_body hfound hgoing (htask _ _ rfl rfl hruns) message⟩

/-- A loop has a history. -/
theorem exists_explains_runItems {raw : Value} {step : Step} (hread : Step.ofValue raw = .ok step)
    (place : Nat) (items : List Value) (context : Context) (world : World) :
    ∃ history, History.Explains interpreter (loopTasks raw place items) history context world
      (interpreter.runItems step place items context world) := by
  induction items generalizing place context world with
  | nil => exact ⟨[], .done, rfl⟩
  | cons item items ih =>
      have htasks : loopTasks raw place (item :: items) =
          [.item raw place item] ++ loopTasks raw (place + 1) items := rfl
      rw [runItems, htasks, atSafePoint_eq]
      split
      · next hcancelled => exact ⟨[], .cancelled hcancelled, rfl⟩
      · next hgoing =>
          have hbody := interpreter.exists_explains_runBody (.item raw place item) step
            (some (place, item)) context rfl (by simpa using hgoing)
            fun body after hstep hitem hruns => .item (hstep ▸ hread) hitem hruns
          exact History.exists_explains_andThen hbody (ih (place + 1))

/-- A step that was read has a history from the world that the look in front of it finds. -/
theorem exists_explains_runStep {raw : Value} {step : Step} (hread : Step.ofValue raw = .ok step)
    (context : Context) (world : World)
    (hgoing : interpreter.isCancelled (interpreter.meanwhile world) = false) :
    ∃ history, History.Explains interpreter [.value raw] history context world
      (interpreter.runStep step context (interpreter.meanwhile world)) := by
  rw [runStep]
  split
  · next hholds =>
      cases hitems : interpreter.items? step context with
      | some items =>
          obtain ⟨history, hleads, htrace⟩ :=
            interpreter.exists_explains_runItems hread 0 items context (interpreter.meanwhile world)
          refine ⟨history, .opened hgoing hread hholds hitems ?_, htrace⟩
          rwa [List.append_nil]
      | none =>
          apply interpreter.exists_explains_runBody (.value raw) step none context rfl hgoing
          intro body after hstep hitem hruns
          subst hstep
          exact .once hread hholds hitems hitem hruns
  · next hholds =>
      have happens : (Event.skipped step).Happens interpreter (.value raw) context
          (interpreter.meanwhile world) (interpreter.meanwhile world) :=
        .skipped hread (by simpa using hholds)
      exact ⟨[.skipped step], .next hgoing happens rfl .done, rfl⟩

/-- A run of steps has a history. -/
theorem exists_explains_runSteps (raws : List Value) (context : Context) (world : World) :
    ∃ history, History.Explains interpreter (raws.map .value) history context world
      (interpreter.runSteps raws context world) := by
  induction raws generalizing context world with
  | nil => exact ⟨[], .done, rfl⟩
  | cons raw raws ih =>
      rw [runSteps, List.map_cons, atSafePoint_eq]
      split
      · next hcancelled => exact ⟨[], .cancelled hcancelled, rfl⟩
      · next hgoing =>
          have hgoing : interpreter.isCancelled (interpreter.meanwhile world) = false := by
            simpa using hgoing
          cases hread : Step.ofValue raw with
          | error misfit => exact ⟨[.refused raw], .ended hgoing (.refused hread) rfl, rfl⟩
          | ok step =>
              exact History.exists_explains_andThen
                (interpreter.exists_explains_runStep hread context world hgoing) ih

/-- The steps of a document; a document that is no workflow has none. -/
def stepsOf (document : Value) : List Value := ((Document.steps (some document)).toOption).getD []

/-- **Every run has a history.** It starts in the context of the parameters with the steps of the
document to do, leads to the context and the world that the run leaves behind, and its logs are
those of the run. -/
theorem exists_history (document : Value) (params : Entries) (world : World) :
    ∃ history context ending,
      History.Leads interpreter ((stepsOf document).map .value) history (.ofParameters params) world
        context (interpreter.execute document params world).2 ending ∧
      (interpreter.execute document params world).1.context = context.entries ∧
      (interpreter.execute document params world).1.trace = History.trace history ∧
      (interpreter.execute document params world).1.params = params := by
  unfold execute stepsOf
  cases Document.steps (some document) with
  | error defect => exact ⟨[], .ofParameters params, .done, .done, rfl, rfl, rfl⟩
  | ok steps =>
      obtain ⟨history, hleads, htrace⟩ :=
        interpreter.exists_explains_runSteps steps (.ofParameters params) world
      refine ⟨history, _, _, hleads, ?_, ?_, ?_⟩
      all_goals
        simp only [finish]
        split <;> first | rfl | exact htrace

end Interpreter

end Runbook

import Runbook.Document
import Runbook.Run.Outcome
import Runbook.Step
import Runbook.Template
import Runbook.Value.Reading

/-!
# Runbook.Run.Interpreter

Running a document. The steps are carried out in their order; a step whose condition does not hold
is skipped, and a step with a loop is carried out once for each item. The output of each completed
body goes into the context, where later steps find it.

A run is built from stages (`Stage`), functions from a context and a world to a new context and
world with the logs of what happened. `Stage.andThen` puts them in sequence and stops at the first
one that does not run to its end, so a run of two lists of steps is the run of the first and then of
the second (`runSteps_append`).
-/

namespace Runbook

/-! ## Conditions and loops -/

/-- Words that do not count as true where a condition resolves to a text. -/
def falseWords : List String := ["false", "null", "none"]

/-- The truth of a text: blank text, zero, and the words for false in any case do not count as
true. -/
def isTruthyText (s : String) : Bool :=
  let t := Text.trimmed s
  !(t.isEmpty || t = "0" || falseWords.any fun w => Text.sameIgnoringCase t w)

/-- The truth of what a condition resolved to. -/
def conditionTruth : Option Value → Bool
  | some (.string s) => isTruthyText s
  | some v => v.isTruthy
  | none => false

/-- The items of a list, or of a string that spells one. -/
def sequence? : Value → Option (List Value)
  | .array items => some items
  | .string s =>
    match Value.read (Text.trimmed s) with
    | .ok (.array items) => some items
    | _ => none
  | _ => none

/-! ## Stages -/

/-- How a part of a run ended. -/
inductive Ending where
  /-- It went through; what follows may start. -/
  | done
  /-- It was cancelled. -/
  | cancelled
  /-- A step ended it. -/
  | aborted (id message : String)
deriving DecidableEq

/-- A part of a run: what it left behind and how it ended. -/
structure Stage (World : Type) where
  /-- The context behind it. -/
  context : Context
  /-- The world behind it. -/
  world : World
  /-- What happened in it. -/
  trace : Trace
  /-- How it ended. -/
  ending : Ending

namespace Stage

variable {World : Type}

/-- A part in which nothing happens. -/
def still (context : Context) (world : World) (ending : Ending) : Stage World :=
  ⟨context, world, .empty, ending⟩

/-- The next part, if this one is done. -/
def andThen (stage : Stage World) (next : Context → World → Stage World) : Stage World :=
  match stage.ending with
  | .done =>
    let second := next stage.context stage.world
    { second with trace := stage.trace ++ second.trace }
  | _ => stage

/-- Stages in a row may be grouped either way. -/
theorem andThen_assoc (stage : Stage World) (f g : Context → World → Stage World) :
    (stage.andThen f).andThen g = stage.andThen fun c w => (f c w).andThen g := by
  obtain ⟨context, world, trace, ending⟩ := stage
  cases ending with
  | done =>
    simp only [andThen]
    generalize f context world = second
    obtain ⟨c, w, t, e⟩ := second
    cases e <;> simp [Trace.append_assoc]
  | cancelled => rfl
  | aborted id message => rfl

/-- A stage that does nothing leaves all to the next. -/
theorem still_andThen (context : Context) (world : World) (next : Context → World → Stage World) :
    (still context world .done).andThen next = next context world := by
  simp [still, andThen, Trace.empty_append]

end Stage

/-! ## The interpreter -/

/-- A flag by which a run can be cancelled. A run looks at its flag at its safe points and nowhere
else, so whatever others do while it is going on is done, for the run, up to one of these looks. -/
structure CancellationFlag (World : Type) where
  /-- The world as a look finds it: others may have changed it since the run last acted. -/
  meanwhile : World → World
  /-- Is the flag set? -/
  isSet : World → Bool

/-- A flag that only the capabilities of a run can set. -/
instance {World : Type} : Coe (World → Bool) (CancellationFlag World) :=
  ⟨fun isSet => ⟨id, isSet⟩⟩

/-- What the steps of a run can use. -/
structure Interpreter (World : Type) where
  /-- The capabilities. -/
  registry : Registry World
  /-- How texts get their values. -/
  resolver : Resolver
  /-- The flag that stops the run at its next safe point, if it has one. -/
  cancellation : Option (CancellationFlag World)
  /-- The delay between attempts of a step that names none. -/
  defaultDelay : Option Delay

namespace Interpreter

variable {World : Type} (interpreter : Interpreter World)

/-- The world as the next look at the flag finds it. -/
def meanwhile (world : World) : World :=
  interpreter.cancellation.elim world fun flag => flag.meanwhile world

/-- Is the flag set? -/
def isCancelled (world : World) : Bool :=
  interpreter.cancellation.any fun flag => flag.isSet world

/-- A safe point: the run looks at the flag, and what is next is done only if it is not set. -/
def atSafePoint (context : Context) (world : World) (next : World → Stage World) : Stage World :=
  let found := interpreter.meanwhile world
  if interpreter.isCancelled found then .still context found .cancelled else next found

/-- Does the condition of a step hold? -/
def holds (step : Step) (context : Context) : Bool :=
  match step.condition with
  | none => true
  | some (.string s) =>
    conditionTruth (Template.resolveText interpreter.resolver context s.toList)
  | some v => conditionTruth (some (Template.renderValue interpreter.resolver context v))

/-- The items of a step's loop; without a loop, or if its source is no list, the step runs once. -/
def items? (step : Step) (context : Context) : Option (List Value) :=
  match step.loop with
  | none => none
  | some (.string s) =>
    (Template.resolveText interpreter.resolver context s.toList).bind sequence?
  | some (.array items) =>
    some (Template.renderItems interpreter.resolver context items)
  | some _ => none

/-- The base of the pauses between the attempts of a step. -/
def delay? (step : Step) : Option Delay :=
  (step.retryDelay.bind fun s => Delay.ofText? s.toList).or interpreter.defaultDelay

/-- A failure as the step's output that lets the run go on. -/
def tolerate (id : String) (report : Report) : Report :=
  ({ report with success := true }.withDetail "allowed_failure" (.bool true)).withDetail "step"
    (.string id)

/-- The context with the report of a completed body. -/
def commit (step : Step) (report : Report) (context : Context) : Context :=
  let context :=
    match step.assign with
    | some key => context.set key report.output
    | none => context
  context.record step.id report

/-- Closes a body: a success, or a failure that the step allows, goes into the context, and any
other failure ends the run. -/
def settle (step : Step) (iteration : Option Nat) (report : Report) (attempts : Nat)
    (message : String) (context : Context) (world : World) : Stage World :=
  let visit disposition : Trace := ⟨[], [⟨step.id, disposition, attempts, iteration⟩], []⟩
  if report.success then ⟨commit step report context, world, visit .succeeded, .done⟩
  else if step.allowFailure then
    ⟨commit step (tolerate step.id report) context, world, visit .tolerated, .done⟩
  else ⟨context, world, visit .fatal, .aborted step.id message⟩

/-- The transcript line of an attempt. -/
def attemptLine (id tool : String) (attempt : Attempt) : String :=
  id ++ ":" ++ tool ++ ":" ++ attempt.report.outputText

/-- Carries out a step once. -/
def runBody (step : Step) (iteration : Option Nat) (context : Context) (world : World) :
    Stage World :=
  match step.tool.bind fun tool => (Registry.find? tool interpreter.registry).map (tool, ·) with
  | none =>
    let message := "step " ++ step.id ++ " references unknown tool '" ++ step.tool.getD "" ++ "'"
    let report := (Report.failed (.string message)).withDetail "step" (.string step.id)
    settle step iteration report 0 message context world
  | some (tool, capability) =>
    let args := Template.renderEntries interpreter.resolver context step.args
    let tries := attempts capability args (interpreter.delay? step) step.retries world
    let trace : Trace := ⟨tries.all.map (attemptLine step.id tool), [],
      tries.all.map fun attempt => ⟨step.id, iteration, tool, args, attempt⟩⟩
    let settled := settle step iteration tries.last tries.all.length
      ("step " ++ step.id ++ " failed: " ++ tries.last.outputText) context tries.world
    { settled with trace := trace ++ settled.trace }

/-- Carries out a step for some items, the first of which has the given place. -/
def runItems (step : Step) (iteration : Nat) : List Value → Context → World → Stage World
  | [], context, world => .still context world .done
  | item :: items, context, world =>
    interpreter.atSafePoint context world fun found =>
      (interpreter.runBody step (some iteration) (context.set step.loopVariable item)
        found).andThen (runItems step (iteration + 1) items)

/-- Carries out a step that was read, or skips it. -/
def runStep (step : Step) (context : Context) (world : World) : Stage World :=
  if interpreter.holds step context then
    match interpreter.items? step context with
    | some items => interpreter.runItems step 0 items context world
    | none => interpreter.runBody step none context world
  else
    ⟨context, world, ⟨[step.id ++ ":skipped"], [⟨step.id, .skipped, 0, none⟩], []⟩, .done⟩

/-- The end of a run at a value that is no step. -/
def refuse (raw : Value) (misfit : Misfit) (context : Context) (world : World) : Stage World :=
  let id := Step.idOfValue raw
  ⟨context, world, ⟨[], [⟨id, .fatal, 0, none⟩], []⟩,
    .aborted id ("step " ++ id ++ " is malformed: " ++ misfit.message)⟩

/-- Carries out the steps in their order, unless the run is cancelled. -/
def runSteps : List Value → Context → World → Stage World
  | [], context, world => .still context world .done
  | raw :: rest, context, world =>
    interpreter.atSafePoint context world fun found =>
      match Step.ofValue raw with
      | .error misfit => refuse raw misfit context found
      | .ok step => (interpreter.runStep step context found).andThen (runSteps rest)

/-- The outcome of a finished run. -/
def finish (params : Entries) (stage : Stage World) : Outcome :=
  match stage.ending with
  | .done =>
    ⟨true, .string Outcome.completedText, stage.trace, params, stage.context.entries, none⟩
  | .cancelled =>
    ⟨false, .string Outcome.cancelledText, stage.trace, params, stage.context.entries, none⟩
  | .aborted id message =>
    ⟨false, .string message, stage.trace, params, stage.context.entries, some id⟩

/-- Runs a document with parameters. A document that is no workflow has an outcome too. -/
def execute (document : Value) (params : Entries) (world : World) : Outcome × World :=
  match Document.steps (some document) with
  | .error defect =>
    (⟨false, .string defect.message, .empty, params, (Context.ofParameters params).entries, none⟩,
      world)
  | .ok steps =>
    let stage := interpreter.runSteps steps (.ofParameters params) world
    (finish params stage, stage.world)

/-- A safe point without the name for the world that it finds. -/
theorem atSafePoint_eq (context : Context) (world : World) (next : World → Stage World) :
    interpreter.atSafePoint context world next =
      if interpreter.isCancelled (interpreter.meanwhile world) then
        .still context (interpreter.meanwhile world) .cancelled
      else next (interpreter.meanwhile world) := rfl

/-- A run that finds its flag not set carries the first step out, and then the others. -/
theorem runSteps_of_ok (context : Context) {world : World}
    (hgoing : interpreter.isCancelled (interpreter.meanwhile world) = false) {raw : Value}
    {step : Step} (hread : Step.ofValue raw = .ok step) (rest : List Value) :
    interpreter.runSteps (raw :: rest) context world =
      (interpreter.runStep step context (interpreter.meanwhile world)).andThen
        (interpreter.runSteps rest) := by
  rw [runSteps, atSafePoint_eq, hgoing, hread]
  rfl

/-- A run of two lists of steps is the run of the first and then of the second. -/
theorem runSteps_append (first second : List Value) (context : Context) (world : World) :
    interpreter.runSteps (first ++ second) context world =
      (interpreter.runSteps first context world).andThen (interpreter.runSteps second) := by
  induction first generalizing context world with
  | nil => simp [runSteps, Stage.still_andThen]
  | cons raw first ih =>
    simp only [List.cons_append, runSteps, atSafePoint_eq]
    split
    · rfl
    · split
      · rfl
      · rw [Stage.andThen_assoc]
        congr 1
        funext c w
        exact ih c w

end Interpreter

end Runbook

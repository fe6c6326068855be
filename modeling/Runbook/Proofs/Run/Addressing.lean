import Runbook.Proofs.Resolver
import Runbook.Proofs.Run.Bindings
import Runbook.Proofs.Run.Simulation
import Runbook.Settings.Basic

/-!
# Runbook.Proofs.Run.Addressing

The output of a step can be addressed by every later step. The arguments of a body are rendered in
the context that the events before it left behind (`History.Leads.happens`), and in that context the
record of a step is the one of its last body that was committed (`get?_commits`). The path to its
output leads there, whatever characters its identifier has (`lookUp_outputOf`): blanks, points,
brackets and operators in a quoted key are part of the key.
-/

namespace Runbook

variable {World : Type}

/-! ## the last committed body -/

/-- The body of a step that an event carried out and that did not end the run. -/
def Event.committed? (id : String) : Event World → Option (Body World)
  | .refused _ | .skipped _ => none
  | .carriedOut body =>
    if body.step.id = id ∧ body.disposition ≠ .fatal then some body else none

/-- The commits of an event hold the record of its body under its name. -/
theorem Event.get?_commits (id : String) (event : Event World) :
    Entries.get? id event.commits.reverse =
      (event.committed? id).map fun body => body.kept.toRecord := by
  cases event with
  | refused raw | skipped step => rfl
  | carriedOut body =>
      simp only [commits, Body.commits, committed?]
      by_cases hfatal : body.disposition = .fatal
      · simp [hfatal, Entries.get?]
      · by_cases hid : body.step.id = id
        · simp [hfatal, hid, Entries.get?]
        · simp [hfatal, hid, Entries.get?]

namespace History

/-- The last body of a step that did not end the run. -/
def lastCommitted? (id : String) : List (Event World) → Option (Body World)
  | [] => none
  | event :: rest => (lastCommitted? id rest).or (event.committed? id)

/-- The record that counts is the one of the last committed body. -/
theorem get?_commits (id : String) (history : List (Event World)) :
    Entries.get? id (commits history).reverse =
      (lastCommitted? id history).map fun body => body.kept.toRecord := by
  induction history with
  | nil => rfl
  | cons event rest ih =>
      have hsplit : commits (event :: rest) = event.commits ++ commits rest := rfl
      rw [lastCommitted?, hsplit, List.reverse_append, Entries.get?_append, ih,
        event.get?_commits, Option.map_or]

/-- An event happens in the context that the events before it left behind. -/
theorem Leads.happens {interpreter : Interpreter World} {tasks : List Task}
    {history earlier later : List (Event World)} {event : Event World} {context context' : Context}
    {before after : World} {ending : Ending}
    (h : Leads interpreter tasks history context before context' after ending)
    (hhistory : history = earlier ++ event :: later) :
    ∃ task middle next, event.Happens interpreter task (leave earlier context) middle next := by
  induction h generalizing earlier with
  | done | cancelled => simp at hhistory
  | opened hgoing hread hholds hitems leads ih => exact ih hhistory
  | next hgoing happens hgoes leads ih =>
      cases earlier with
      | nil =>
          cases hhistory
          exact ⟨_, _, _, happens⟩
      | cons first earlier =>
          cases hhistory
          exact ih rfl
  | ended hgoing happens hends =>
      cases earlier with
      | nil =>
          cases hhistory
          exact ⟨_, _, _, happens⟩
      | cons first earlier => simp at hhistory

end History

/-- A body that happens makes its invocations with its arguments rendered in its context. -/
theorem Event.Happens.args_eq {interpreter : Interpreter World} {task : Task} {body : Body World}
    {context : Context} {before after : World}
    (h : (Event.carriedOut body).Happens interpreter task context before after) :
    ∀ invocation ∈ body.invocations, invocation.args =
      Template.renderEntries interpreter.resolver (body.enter context) body.step.args :=
  fun invocation hmem => (h.runs.made invocation hmem).2.2.2

/-! ## the path to an output -/

/-- The path to an output leads to the output in the record of the step. -/
theorem resolve_outputOf {context : Context} (hrecords : context.hasRecords = true) {id : String}
    (hid : '\'' ∉ id.toList) :
    Path.resolve context.entries (PathText.outputOf id hid).chars =
      (context.stepRecord? id).bind fun record => record.member? "output" := by
  have haccessors : (PathText.outputOf id hid).accessors? =
      some [.key Context.stepsKey, .key id, .key "output"] := by
    have hkey : String.ofList id.toList = id := String.ofList_toList
    simp only [PathText.accessors?, PathText.outputOf, Name.toPathName, List.mapM_cons,
      List.mapM_nil, Move.accessor?, hkey]
    rfl
  have hroot : Entries.get? Context.stepsKey context.entries = some (.object context.records) :=
    context.get?_stepsKey_of_hasRecords hrecords
  have houtput : ∀ record : Value,
      (Accessor.key "output").lookup record = record.member? "output" := by
    intro record
    cases record <;> rfl
  rw [Path.resolve, PathText.ofText?_chars, haccessors, Option.bind_some, Path.walk,
    Accessor.lookup]
  simp only [hroot, Option.bind_some, Path.walk, houtput, Option.bind_fun_some]
  rfl

/-- The path to the output of a step as a step writes it. -/
def outputPath (id : String) : String := "steps['" ++ id ++ "'].output"

/-- The span that stands for the output of a step in an argument. -/
def outputSpan (id : String) : String := "\x7b\x7b " ++ outputPath id ++ " \x7d\x7d"

theorem toList_outputPath {id : String} (hid : '\'' ∉ id.toList) :
    (outputPath id).toList = (PathText.outputOf id hid).chars := by
  have hlead : "steps['".toList = recordsName.chars ++ ['[', '\''] := by decide
  have htail : "'].output".toList = ['\'', ']'] ++ '.' :: outputName.chars := by decide
  rw [outputPath, String.toList_append, String.toList_append, hlead, htail]
  simp [PathText.chars, PathText.outputOf, Name.toPathName, Move.chars, QuotedKey.text]

theorem toList_outputSpan (id : String) :
    (outputSpan id).toList = Template.spanned (outputPath id).toList := by
  have hopen : "\x7b\x7b ".toList = Template.opening ++ [' '] := by decide
  have hclose : " \x7d\x7d".toList = ' ' :: Template.closing := by decide
  rw [outputSpan, String.toList_append, String.toList_append, Template.spanned, hopen, hclose]
  simp

section Found

variable {context : Context} (hrecords : context.hasRecords = true) {id : String}
  (hid : '\'' ∉ id.toList) (hfree : context.get? (outputPath id) = none) (engine : Engine)
include hrecords hid hfree

/-- Either engine finds the output, where the path is not itself the name of a binding. -/
theorem resolve_outputPath :
    engine.resolver.resolve context (outputPath id).toList =
      (context.stepRecord? id).bind fun record => record.member? "output" := by
  have hchars := toList_outputPath hid
  have hsolid : Text.Solid (outputPath id).toList := by
    rw [hchars]
    exact (PathText.outputOf id hid).solid
  have hlook : Resolver.lookUp context (outputPath id).toList =
      (context.stepRecord? id).bind fun record => record.member? "output" := by
    simp only [Resolver.lookUp, hsolid.trim_eq, hsolid.isEmpty_eq, Bool.false_eq_true, if_false,
      String.ofList_toList, hfree, Option.none_or]
    rw [hchars]
    exact resolve_outputOf hrecords hid
  rw [← hlook]
  cases engine with
  | rich =>
      refine Resolver.evaluate_eq_lookUp (.inr ⟨_, PathText.quiet_outputOf id hid, ?_⟩) context
      rw [hsolid.trim_eq, hchars]
  | basic => rfl

/-- The span renders to the output of the record, for either engine. -/
theorem renderString_outputSpan (hbraces : Text.Undoubled '}' id.toList) {report : Report}
    (hrecord : context.stepRecord? id = some report.toRecord) :
    Template.renderString engine.resolver context (outputSpan id) = report.output.display := by
  have hclose : Text.Undoubled '}' (PathText.outputOf id hid).chars := by
    refine PathText.undoubled (by decide) (PathText.quiet_outputOf id hid) fun key hkey => ?_
    have hkey : key = ⟨'\'', rfl, id.toList, hid⟩ := by simpa [PathText.outputOf] using hkey
    rw [hkey]
    exact hbraces
  have hvalue := resolve_outputPath hrecords hid hfree engine
  rw [toList_outputPath hid, hrecord] at hvalue
  rw [Template.renderString, toList_outputSpan, toList_outputPath hid,
    Template.render_spanned (PathText.outputOf id hid).solid hclose, hvalue]
  exact String.ofList_toList

end Found

/-! ## the context of a body -/

/-- Entering a body keeps the records. -/
theorem Body.hasRecords_enter (body : Body World) {context : Context}
    (h : context.hasRecords = true) : (body.enter context).hasRecords = true := by
  unfold enter Step.enter
  cases body.item with
  | none => exact h
  | some item => exact Context.hasRecords_set h _ _

/-- It changes none of them. -/
theorem Body.stepRecord?_enter (body : Body World) (context : Context) (id : String) :
    (body.enter context).stepRecord? id = context.stepRecord? id := by
  rw [Context.stepRecord?, records_enter, Context.stepRecord?]

/-- **Earlier outputs can be addressed.** Every run has a history that accounts for its logs, in
which the arguments of a body are rendered in the context `here` that the events before it left
behind. If a step was committed before, the span of its output is rendered in `here` as the output
of its last committed body. The identifier of the step may hold anything but a single quote and two
closing braces in a row, and the path to the output must not be the name of a binding. -/
theorem earlier_outputs_addressable (interpreter : Interpreter World) (engine : Engine)
    (document : Value) (params : Entries) (world : World) :
    ∃ (history : List (Event World)) (context : Context) (ending : Ending),
      History.Leads (interpreter.withResolver engine.resolver)
        ((Interpreter.stepsOf document).map .value) history (.ofParameters params) world context
        ((interpreter.withResolver engine.resolver).execute document params world).2 ending ∧
      ((interpreter.withResolver engine.resolver).execute document params world).1.trace =
        History.trace history ∧
      ∀ (earlier : List (Event World)) (body : Body World) (later : List (Event World)),
        history = earlier ++ .carriedOut body :: later →
        let here := body.enter
          (earlier.foldl (fun context event => event.leave context) (.ofParameters params))
        (∀ invocation ∈ body.invocations,
          invocation.args = Template.renderEntries engine.resolver here body.step.args) ∧
        ∀ (id : String) (last : Body World), '\'' ∉ id.toList → Text.Undoubled '}' id.toList →
          History.lastCommitted? id earlier = some last → here.get? (outputPath id) = none →
          Template.renderString engine.resolver here (outputSpan id) =
            last.report.output.display := by
  obtain ⟨history, context, ending, hleads, -, htrace, -⟩ :=
    (interpreter.withResolver engine.resolver).exists_history document params world
  refine ⟨history, context, ending, hleads, htrace, ?_⟩
  intro earlier body later hhistory here
  obtain ⟨task, middle, next, happens⟩ := hleads.happens hhistory
  refine ⟨happens.args_eq, ?_⟩
  intro id last hid hbraces hlast hfree
  have hrecords : here.hasRecords = true :=
    body.hasRecords_enter
      (History.hasRecords_leave earlier (Context.hasRecords_ofParameters params))
  have hrecord : here.stepRecord? id = some last.kept.toRecord := by
    have hleft := History.stepRecord?_leave earlier (.ofParameters params) id
    rw [History.get?_commits, hlast] at hleft
    exact (body.stepRecord?_enter _ id).trans hleft
  rw [renderString_outputSpan hrecords hid hfree engine hbraces hrecord, last.output_kept]

/-! ### an identifier full of operators -/

/-- A step without a loop, whose condition holds, is carried out once where the run comes to it. -/
theorem History.Leads.exists_once {interpreter : Interpreter World} {raw : Value} {step : Step}
    {todo : List Task} {history : List (Event World)} {context context' : Context}
    {before after : World} {ending : Ending}
    (h : Leads interpreter (.value raw :: todo) history context before context' after ending)
    (hgoing : interpreter.isCancelled (interpreter.meanwhile before) = false)
    (hread : Step.ofValue raw = .ok step) (hholds : interpreter.holds step context = true)
    (hitems : interpreter.items? step context = none) :
    ∃ body rest middle, history = .carriedOut body :: rest ∧ body.step = step ∧ body.item = none ∧
      body.Runs interpreter context (interpreter.meanwhile before) middle ∧
      (rest = [] ∨
        Leads interpreter todo rest (body.leave context) middle context' after ending) := by
  -- the condition holds and there is no loop, so of all that can happen only one thing does
  have hbody {event : Event World} {middle : World}
      (happens : event.Happens interpreter (.value raw) context (interpreter.meanwhile before)
        middle) : ∃ body, event = .carriedOut body ∧ body.step = step ∧ body.item = none ∧
          body.Runs interpreter context (interpreter.meanwhile before) middle := by
    cases happens with
    | refused hread' =>
        rw [hread] at hread'
        contradiction
    | skipped hread' hholds' =>
        obtain rfl := Except.ok.inj (hread.symm.trans hread')
        rw [hholds] at hholds'
        contradiction
    | once hread' hholds' hitems' hitem hruns =>
        exact ⟨_, rfl, Except.ok.inj (hread'.symm.trans hread), hitem, hruns⟩
  cases h with
  | cancelled hcancelled =>
      rw [hgoing] at hcancelled
      contradiction
  | opened hgoing' hread' hholds' hitems' leads =>
      obtain rfl := Except.ok.inj (hread.symm.trans hread')
      rw [hitems] at hitems'
      contradiction
  | next hgoing' happens hgoes leads =>
      obtain ⟨body, rfl, hstep, hitem, hruns⟩ := hbody happens
      exact ⟨body, _, _, rfl, hstep, hitem, hruns, .inr leads⟩
  | ended hgoing' happens hends =>
      obtain ⟨body, rfl, hstep, hitem, hruns⟩ := hbody happens
      exact ⟨body, [], _, rfl, hstep, hitem, hruns, .inl rfl⟩

/-- An identifier in which hardly anything reads as it would outside of quotes. -/
def oddId : String := "a || b.c [\"x\"]"

/-- A capability that says where it is. -/
def telling : Capability Unit := ⟨"", fun _ _ => (.ok ⟨.string "here", true, none⟩, ())⟩

/-- An interpreter with this capability. -/
def teller : Interpreter Unit :=
  Interpreter.withResolver ⟨[("tell", telling)], Resolver.basic, none, none⟩ Engine.rich.resolver

/-- A step of this identifier. -/
def tellOdd : Value := .object [("id", .string oddId), ("tool", .string "tell")]

/-- A step that asks for its output. -/
def askOdd : Value :=
  .object [("tool", .string "tell"), ("args", .object [("text", .string (outputSpan oddId))])]

/-- A body of a step that names the capability and is not tried again has its report. -/
theorem report_of_runs_teller {body : Body Unit} {context : Context} {before after : Unit}
    (htool : body.step.tool = some "tell") (hretries : body.step.retries = 0)
    (hruns : body.Runs teller context before after) :
    body.report = ⟨.string "here", true, none⟩ := by
  have hcap : teller.capability? body.step = some telling := by
    rw [Interpreter.capability?, htool]
    rfl
  obtain ⟨earlier, last, hsplit, hreport, -, hle, -⟩ := hruns.tried (by rw [hcap]; rfl)
  rw [hretries] at hle
  obtain rfl := List.eq_nil_of_length_eq_zero (Nat.le_zero.mp hle)
  have hlast := (hruns.made last (by simp [hsplit])).2.2.1
  have hreplays := hruns.replays
  rw [hsplit] at hreplays
  obtain ⟨capability, hfind, hresult, -⟩ := hreplays
  rw [Option.some.inj (hlast.symm.trans htool)] at hfind
  obtain rfl : telling = capability := Option.some.inj hfind
  rw [hreport, Attempt.report, ← hresult]
  rfl

theorem earlier_outputs_addressable_oddId :
    ∃ first second : Body Unit,
      (teller.execute (.object [("steps", .array [tellOdd, askOdd])]) [] ()).1.trace =
        History.trace [.carriedOut first, .carriedOut second] ∧
      first.step.id = oddId ∧
      Template.renderString Engine.rich.resolver
        (second.enter (first.leave (.ofParameters []))) (outputSpan oddId) = "here" := by
  obtain ⟨history, context, ending, hleads, htrace, hspans⟩ :=
    earlier_outputs_addressable ⟨[("tell", telling)], Resolver.basic, none, none⟩ .rich
      (.object [("steps", .array [tellOdd, askOdd])]) [] ()
  have htell : Step.ofValue tellOdd = .ok { Step.default with id := oddId, tool := some "tell" } :=
    rfl
  have hask : Step.ofValue askOdd = .ok { Step.default with
      tool := some "tell", args := [("text", .string (outputSpan oddId))] } := rfl
  have hsteps : Interpreter.stepsOf (.object [("steps", .array [tellOdd, askOdd])]) =
      [tellOdd, askOdd] := rfl
  have hvisits : (History.trace history).visits.length = 2 := by
    rw [← htrace]
    decide +kernel
  rw [hsteps] at hleads
  obtain ⟨first, rest, _, rfl, hfirst, hitem, hruns, hrest⟩ := hleads.exists_once rfl htell rfl rfl
  have hreport := report_of_runs_teller (by rw [hfirst]) (by rw [hfirst]; rfl) hruns
  rcases hrest with rfl | hleads
  · simp [History.trace] at hvisits
  obtain ⟨second, rest, _, rfl, hsecond, hitem', -, -⟩ := hleads.exists_once rfl hask rfl rfl
  obtain rfl : rest = [] := by simpa [History.trace] using hvisits
  have hlast : History.lastCommitted? oddId [.carriedOut first] = some first := by
    simp [History.lastCommitted?, Event.committed?, Body.disposition, hfirst, hreport]
  have hfree : (second.enter (first.leave (.ofParameters []))).get? (outputPath oddId) = none := by
    simp only [Body.leave, Body.enter, Body.disposition, Body.kept, Step.enter, hitem, hitem',
      hfirst, hreport]
    decide +kernel
  have hrender := (hspans [.carriedOut first] second [] rfl).2 oddId first (by decide +kernel)
    (by decide +kernel) hlast hfree
  refine ⟨first, second, htrace, by rw [hfirst], hrender.trans ?_⟩
  rw [hreport]
  rfl

end Runbook

import Runbook.CommandLine.Reply
import Runbook.Proofs.Redaction.Literal

/-!
# Runbook.Proofs.CommandLine.Reply

What is printed as data can be read as data. A report is redacted after it is written as text, so a
secret may reach beyond the string that it starts in. Where none does, the text that is shown is
still that of a report (`isReportText_shown`), and so is what a run and an invocation print
(`printed_isReportText`); where one does, the text may be broken (`loses_closing_quote`).
-/

namespace Runbook.CommandLine

open Redaction

/-- The text of a mapping with the three fields of a report, in order. -/
def IsReportText (cs : List Char) : Prop :=
  ∃ inside, cs = '{' :: inside ++ ['}'] ∧
    Spells (.members (["success", "output", "metadata"].map quoted)) inside

/-- The names of the fields of a report are shown as they are. -/
theorem redactWith_fields : ∀ name ∈ ["success", "output", "metadata"],
    redactWith Redaction.mask.toList (quoted name) = quoted name := by
  decide

/-- A report is shown as the text of a report if all strings in it keep their closing quotes. -/
theorem isReportText_shown (report : Report) (h : ∀ s ∈ report.toValue.strings, KeepsQuote s) :
    IsReportText (Scene.shown report).toList := by
  obtain ⟨hredacted, htexts⟩ := redactWith_layout report.toValue 0 h
  have hkeys : ∀ e ∈ [("success", Value.bool report.success), ("output", report.output),
      ("metadata", report.metadataValue)],
      StringText (redactWith Redaction.mask.toList (quoted e.1)) := fun e he =>
    htexts e.1 (Value.strings_subset_of_entry he List.mem_cons_self)
  have hvalues : ∀ e ∈ [("success", Value.bool report.success), ("output", report.output),
      ("metadata", report.metadataValue)],
      Spells .value (e.2.layout (fun s => redactWith Redaction.mask.toList (quoted s)) 1) :=
    fun e he => e.2.spells_layout 1 fun s hs =>
      htexts s (Value.strings_subset_of_entry he (List.mem_cons_of_mem _ hs))
  obtain ⟨inside, hlayout, hinside⟩ := Value.exists_members hkeys hvalues
  refine ⟨inside, ?_, ?_⟩
  · simpa [Scene.shown, redact, Value.pretty, Report.toValue] using hredacted.trans hlayout
  · have hnames := List.map_congr_left redactWith_fields
    rw [← hnames]
    exact hinside

namespace Scene

/-- How the run of a workflow file ends. -/
def outcome (scene : Scene) (path : List Char) (params : Entries) : Outcome :=
  let path := FilePath.join scene.files.currentPath path
  let workspace := scene.workspace (detectRoot scene.files path)
  (WorkflowFile.run (workspace.interpreter workspace.registry) scene.files path params
    (.fresh scene.now)).1

/-- **What is printed as data is the text of a report** if the strings in it keep their closing
quotes: behind the first line of every run whose result is shown as data, and for every invocation
of a registered capability with arguments that are a mapping. -/
theorem printed_isReportText (scene : Scene) :
    (∀ path params,
      (scene.run path params true).lines =
          ["workflow success=" ++ truthText (scene.outcome path params).success,
            shown (scene.outcome path params).toReport] ∧
        ((∀ s ∈ (scene.outcome path params).toReport.toValue.strings, KeepsQuote s) →
          IsReportText (shown (scene.outcome path params).toReport).toList)) ∧
      ∀ name args capability entries,
        Registry.find? name scene.currentWorkspace.registry = some capability →
        toolArguments args = .ok entries →
          ∃ report, report = Report.ofResult (capability.invoke entries (.fresh scene.now)).1 ∧
            (scene.invoke name args).lines = [shown report] ∧
            ((∀ s ∈ report.toValue.strings, KeepsQuote s) →
              IsReportText (shown report).toList) := by
  refine ⟨fun path params => ⟨rfl, isReportText_shown _⟩, ?_⟩
  intro name args capability entries hfind hargs
  refine ⟨_, rfl, ?_, isReportText_shown _⟩
  simp only [invoke, hfind, hargs]

/-! ### a scene with one file -/

/-- A scene with a workflow file whose only step shows a text. -/
def oneFile : Scene where
  settings := .default
  files :=
    ⟨fun names =>
      if names = [] then some .directory
      else if names = ["flow.json".toList] then
        some (.file (some ("\x7b\"steps\": [\x7b\"tool\": \"echo\", \"args\": " ++
          "\x7b\"text\": \"API_KEY=abc now\"\x7d\x7d]\x7d")))
      else none, []⟩
  now := "now"

/-- The arguments of an invocation that shows a text. -/
theorem toolArguments_entry (k s : String) :
    toolArguments (String.ofList
        ('{' :: (quoted k ++ ':' :: ' ' :: (quoted s ++ ['}'])))) = .ok [(k, .string s)] := by
  simp only [toolArguments, Reading.read_entry]

/-- Both are reports: what a run of the one file prints, and what is printed for an assignment in an
echoed text, whose closing quote is kept by the word behind it. -/
theorem printed_isReportText_oneFile :
    IsReportText (shown (oneFile.outcome "flow.json".toList []).toReport).toList ∧
      ∃ report,
        (oneFile.invoke "echo" "\x7b\"text\": \"API_KEY=abc now\"\x7d").lines = [shown report] ∧
        report.output.string? = some "API_KEY=abc now" ∧ IsReportText (shown report).toList := by
  have hstrings : ∀ s ∈ (oneFile.outcome "flow.json".toList []).toReport.toValue.strings,
      KeepsQuote s := by
    unfold KeepsQuote
    decide +kernel
  have htext : ∀ s ∈ (Report.succeeded (.string "API_KEY=abc now")).toValue.strings,
      KeepsQuote s := by
    unfold KeepsQuote
    decide
  refine ⟨((printed_isReportText oneFile).1 _ _).2 hstrings, ?_⟩
  obtain ⟨report, hreport, hlines, hshown⟩ :=
    (printed_isReportText oneFile).2 "echo" _ _ _ rfl (toolArguments_entry "text" "API_KEY=abc now")
  obtain rfl : report = .succeeded (.string "API_KEY=abc now") := hreport
  exact ⟨_, hlines, rfl, hshown htext⟩

/-- A secret that ends a string takes its closing quote, and what is printed is no data text. -/
theorem loses_closing_quote : ∃ text,
    (oneFile.invoke "echo" "\x7b\"text\": \"password: hunter2\"\x7d").lines = [text] ∧
      ¬Spells .value text.toList := by
  refine ⟨shown (.succeeded (.string "password: hunter2")), ?_, fun hspells => ?_⟩
  · have hargs : toolArguments "\x7b\"text\": \"password: hunter2\"\x7d" =
        .ok [("text", .string "password: hunter2")] :=
      toolArguments_entry "text" "password: hunter2"
    unfold invoke
    rw [hargs]
    rfl
  · have hplace := Place.behind_spells hspells
    have hshown : (shown (.succeeded (.string "password: hunter2"))).toList =
        redactWith Redaction.mask.toList
          ((Report.succeeded (.string "password: hunter2")).toValue.prettyChars 0) := by
      simp [shown, redact, Value.pretty]
    rw [hshown] at hplace
    revert hplace
    decide

end Scene

end Runbook.CommandLine

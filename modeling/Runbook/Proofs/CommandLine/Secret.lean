import Runbook.Proofs.CommandLine.Reply
import Runbook.Proofs.Redaction.Frame
import Runbook.Proofs.Run.Influence

/-!
# Runbook.Proofs.CommandLine.Secret

What a run that is shown as data tells of a secret among its parameters. The rule for the names of
secrets looks for an assignment, but in a data text a quote stands between the name and the colon
behind it. So the name does not protect the value: once the run succeeds, what is printed tells two
secrets apart exactly if redacting the quoted values alone does (`text_run_secret_iff`).

A report of a success has the parameters and the final context in it, and the secret stands in the
first and, unless a step overwrites it, in the second (`exists_fill`).
-/

namespace Runbook

/-! ## the text of a mapping around a value -/

namespace Redaction

/-- A comma fences off what stands before it. -/
theorem fenced_comma (tail : List Char) : Fenced (',' :: tail) := fenced_cons (by decide) tail

/-- So does a line break. -/
theorem fenced_newline (level : Nat) (tail : List Char) : Fenced (Value.newline level ++ tail) :=
  fenced_cons (by decide) _

theorem blanks_newline (level : Nat) : Text.Blanks (Value.newline level) := by
  refine List.forall_mem_cons.mpr ⟨by decide, fun c hc => ?_⟩
  rw [List.eq_of_mem_replicate hc]
  decide

/-- So do written entries. -/
theorem fenced_prettyEntries (level : Nat) (entries : Entries) :
    Fenced (Value.prettyEntries level entries) := by
  cases entries with
  | nil => exact fenced_nil
  | cons e es => exact fenced_comma _

end Redaction

open Redaction

namespace Entries

/-- The other entries stay where they are, whatever a key is bound to. -/
theorem exists_set (key : String) (entries : Entries) :
    ∃ before after, ∀ x, set key x entries = before ++ (key, x) :: after := by
  induction entries with
  | nil => exact ⟨[], [], fun x => rfl⟩
  | cons e rest ih =>
      obtain ⟨k, y⟩ := e
      by_cases hk : k = key
      · exact ⟨[], rest, fun x => by simp [set, hk]⟩
      · obtain ⟨before, after, hset⟩ := ih
        exact ⟨(k, y) :: before, after, fun x => by simp [set, hk, hset]⟩

end Entries

namespace Value

/-- Entries are written one behind the other. -/
theorem prettyEntries_append (level : Nat) (first second : Entries) :
    prettyEntries level (first ++ second) =
      prettyEntries level first ++ prettyEntries level second := by
  induction first with
  | nil => rfl
  | cons e first ih =>
      obtain ⟨k, v⟩ := e
      simp [prettyEntries, ih]

/-- The text of a mapping around the value of one key. -/
theorem exists_prettyChars_set {key : String} (hkey : IsSecretName key.toList) (level : Nat)
    (entries : Entries) :
    ∃ front last, IsFront (label key.toList ++ [' ']) front ∧ Fenced last ∧
      ∀ x, (Value.object (Entries.set key x entries)).prettyChars level =
        front ++ (x.prettyChars (level + 1) ++ last) := by
  obtain ⟨before, after, hset⟩ := Entries.exists_set key entries
  have hlast : Fenced (prettyEntries (level + 1) after ++ (newline level ++ ['}'])) :=
    (fenced_prettyEntries _ _).append (fenced_newline level ['}'])
  have hgap := blanks_newline (level + 1)
  have hlabel := quoted_append_colon hkey
  cases before with
  | nil =>
      refine ⟨'{' :: newline (level + 1) ++ (label key.toList ++ [' ']), _,
        ⟨[], '{', newline (level + 1), rfl, by decide, by simp [newline], hgap⟩, hlast,
        fun x => ?_⟩
      rw [hset, ← hlabel]
      simp [prettyChars]
  | cons e before =>
      obtain ⟨k, y⟩ := e
      refine ⟨'{' :: newline (level + 1) ++ quoted k ++ ": ".toList ++ prettyChars (level + 1) y ++
          prettyEntries (level + 1) before ++ ',' :: newline (level + 1) ++
            (label key.toList ++ [' ']), _,
        ⟨_, ',', newline (level + 1), rfl, by decide, by simp [newline], hgap⟩, hlast,
        fun x => ?_⟩
      rw [hset, ← hlabel]
      simp [prettyChars, prettyEntries_append, prettyEntries]

end Value

/-! ## the report of a success -/

/-- The text of the report of a success around its parameters and its final context. -/
theorem Outcome.exists_report_text (output : Value) (trace : Trace) (failedStep : Option String) :
    ∃ head middle last, ∀ params context : Entries,
      (Outcome.toReport ⟨true, output, trace, params, context, failedStep⟩).toValue.prettyChars 0 =
        '{' :: (Value.newline 1 ++ (head ++ ((Value.object params).prettyChars 2 ++
          ',' :: (middle ++ ((Value.object context).prettyChars 2 ++
            (Value.newline 1 ++ last)))))) := by
  refine ⟨quoted "success" ++ ": ".toList ++ Value.boolText true ++
      ',' :: Value.newline 1 ++ quoted "output" ++ ": ".toList ++ output.prettyChars 1 ++
      ',' :: Value.newline 1 ++ quoted "metadata" ++ ": ".toList ++ '{' :: Value.newline 2 ++
      quoted "transcript" ++ ": ".toList ++
      (Value.array (trace.transcript.map .string)).prettyChars 2 ++
      ',' :: Value.newline 2 ++ quoted "params" ++ ": ".toList,
    Value.newline 2 ++ quoted "context" ++ ": ".toList,
    '}' :: Value.newline 0 ++ ['}'], fun params context => ?_⟩
  simp [Outcome.toReport, Outcome.transcriptValue, Report.toValue, Report.metadataValue,
    Value.prettyChars, Value.prettyEntries]

/-- The texts of the reports of two successes are the same but for the secret that stands in
them. -/
theorem Outcome.Apart.exists_fill {key v w : String} {params : Entries} {first second : Outcome}
    (h : Outcome.Apart key (.string v) (.string w) params first second)
    (hkey : IsSecretName key.toList) (hsuccess : first.success = true) :
    ∃ fronts last, fronts ≠ [] ∧
      (∀ front ∈ fronts, IsSlot [label key.toList ++ [' ']] front) ∧ Fenced last ∧
      first.toReport.toValue.prettyChars 0 = '{' :: fill fronts last (quoted v) ∧
      second.toReport.toValue.prettyChars 0 = '{' :: fill fronts last (quoted w) := by
  obtain ⟨success, output, trace, given, context, failedStep⟩ := first
  obtain ⟨success', output', trace', given', other, failedStep'⟩ := second
  obtain ⟨rfl, rfl, rfl, rfl, ⟨rfl, rfl⟩, hcontext⟩ := h
  obtain rfl : success = true := hsuccess
  obtain ⟨head, middle, last, htext⟩ := Outcome.exists_report_text output trace failedStep
  obtain ⟨front, tail, hfront, htail, hparams⟩ := Value.exists_prettyChars_set hkey 2 params
  have hmem : label key.toList ++ [' '] ∈ [label key.toList ++ [' ']] := by simp
  have hslot : IsSlot [label key.toList ++ [' ']] (Value.newline 1 ++ (head ++ front)) :=
    ⟨fenced_newline 1 _, _, hmem, (hfront.append head).append _⟩
  cases hcontext with
  | same context =>
      -- the secret stands among the parameters only
      refine ⟨[Value.newline 1 ++ (head ++ front)],
        tail ++ ',' :: (middle ++ ((Value.object context).prettyChars 2 ++
          (Value.newline 1 ++ last))),
        by simp, by simpa using hslot, htail.append (fenced_comma _), ?_, ?_⟩
      · rw [htext, hparams]
        simp [fill, Value.prettyChars]
      · rw [htext, hparams]
        simp [fill, Value.prettyChars]
  | apart entries hentries =>
      obtain ⟨front', tail', hfront', htail', hentries'⟩ :=
        Value.exists_prettyChars_set hkey 2 entries
      have hslot' : IsSlot [label key.toList ++ [' ']] (tail ++ ',' :: (middle ++ front')) :=
        ⟨htail.append (fenced_comma _), _, hmem,
          ((hfront'.append middle).append [',']).append tail⟩
      refine ⟨[Value.newline 1 ++ (head ++ front), tail ++ ',' :: (middle ++ front')],
        tail' ++ (Value.newline 1 ++ last), by simp, by simpa using ⟨hslot, hslot'⟩,
        htail'.append (fenced_newline 1 _), ?_, ?_⟩
      · rw [htext, hparams, hentries']
        simp [fill, Value.prettyChars]
      · rw [htext, hparams, hentries']
        simp [fill, Value.prettyChars]

/-- The report of a failure does not tell the parameters. -/
theorem Outcome.Apart.toReport_eq {key : String} {v w : Value} {params : Entries}
    {first second : Outcome} (h : Outcome.Apart key v w params first second)
    (hfailed : first.success = false) : first.toReport = second.toReport := by
  have hfailed' : second.success = false := h.success ▸ hfailed
  have htranscript : first.transcriptValue = second.transcriptValue := by
    rw [Outcome.transcriptValue, Outcome.transcriptValue, h.trace]
  simp only [Outcome.toReport, hfailed, hfailed', h.output, h.failedStep, htranscript,
    Bool.false_eq_true, if_false]

/-! ## what is printed -/

/-- A parameter that no step of a file reads has no influence on the run of the file. -/
theorem WorkflowFile.run_apart {World : Type} {interpreter : Interpreter World}
    {readKeys : List Char → List String} (hreads : interpreter.resolver.ReadsOnly readKeys)
    {key : String} (hkey : key ≠ Context.stepsKey)
    {files : FileSystem} {path : List Char} {params : Entries} {world : World} {v : Value}
    (hignores : ∀ file, loadExisting files path = .ok file →
      interpreter.Ignores readKeys key (Interpreter.stepsOf file.document)
        (.ofParameters (Entries.set key v params)) world)
    (w : Value) :
    Outcome.Apart key v w params (run interpreter files path (Entries.set key v params) world).1
      (run interpreter files path (Entries.set key w params) world).1 := by
  have hrejected : ∀ text : String, Outcome.Apart key v w params
      (.rejected (.string text) (Entries.set key v params))
      (.rejected (.string text) (Entries.set key w params)) := fun text =>
    ⟨rfl, rfl, rfl, rfl, ⟨rfl, rfl⟩, .same _⟩
  unfold run
  cases hload : loadExisting files path with
  | error text => exact hrejected text
  | ok file =>
      cases hsteps : Document.steps (some file.document) with
      | error defect => simpa only [hsteps] using hrejected defect.message
      | ok raws =>
          simp only [hsteps]
          exact (interpreter.execute_apart hreads hkey w (hignores file hload)).1

namespace CommandLine.Scene

variable (scene : Scene)

/-- What runs a workflow file. -/
def interpreter (path : List Char) : Interpreter Workbench :=
  let path := FilePath.join scene.files.currentPath path
  let workspace := scene.workspace (detectRoot scene.files path)
  workspace.interpreter workspace.registry

/-- The key is not read for any text that a step looks up which the run of the file comes to. -/
def Ignores (path : List Char) (params : Entries) (key : String) : Prop :=
  ∀ file, WorkflowFile.loadExisting scene.files (FilePath.join scene.files.currentPath path) =
      .ok file →
    (scene.interpreter path).Ignores scene.settings.engine.readKeys key
      (Interpreter.stepsOf file.document) (.ofParameters params) (.fresh scene.now)

instance (path : List Char) (params : Entries) (key : String) :
    Decidable (scene.Ignores path params key) :=
  decidableOfOk _

variable {scene}

/-- What is shown of a report is its redacted text. -/
theorem toList_shown (report : Report) :
    (shown report).toList =
      redactWith Redaction.mask.toList (report.toValue.prettyChars 0) := by
  simp [shown, redact, Value.pretty]

/-- The name of a secret is not the reserved one. -/
theorem ne_stepsKey {key : String} (hkey : IsSecretName key.toList) : key ≠ Context.stepsKey := by
  rintro rfl
  obtain ⟨w, hw, hsuffix⟩ := hkey.suffix
  have hall : ∀ w ∈ secretWords, ¬w <:+ Context.stepsKey.toList.map Char.toLower := by decide
  exact hall w hw hsuffix

/-- The printed text of a run: a line on its success, and the report. -/
theorem text_run (path : List Char) (params : Entries) :
    (scene.run path params true).text =
      "workflow success=" ++ truthText (scene.outcome path params).success ++ "\n" ++
        (shown (scene.outcome path params).toReport ++ "\n") := by
  show String.join [_ ++ "\n", _ ++ "\n"] = _
  simp [String.join, outcome]

/-- Of two runs that both succeed or both fail, the texts differ if the reports are shown
differently. -/
theorem text_run_eq_iff {path : List Char} {params params' : Entries}
    (h : (scene.outcome path params).success = (scene.outcome path params').success) :
    (scene.run path params true).text = (scene.run path params' true).text ↔
      shown (scene.outcome path params).toReport = shown (scene.outcome path params').toReport := by
  rw [text_run, text_run, h, ← String.toList_inj, ← String.toList_inj]
  simp

/-- **What a run that is shown as data tells of a secret.** For a parameter with the name of a
secret that no step reads, the texts that are printed for two of its values are the same exactly if
the run fails, so that the parameters are not shown, or the two values in quotes are redacted to the
same. The name does not matter. -/
theorem text_run_secret_iff {path : List Char} {params : Entries} {key v w : String}
    (hkey : IsSecretName key.toList) (hv : IsSecret v.toList) (hw : IsSecret w.toList)
    (hignores : scene.Ignores path (Entries.set key (.string v) params) key) :
    (scene.run path (Entries.set key (.string v) params) true).text =
        (scene.run path (Entries.set key (.string w) params) true).text ↔
      ((scene.outcome path (Entries.set key (.string v) params)).success = true →
        redactWith Redaction.mask.toList (quoted v) =
          redactWith Redaction.mask.toList (quoted w)) := by
  have hapart : Outcome.Apart key (.string v) (.string w) params
      (scene.outcome path (Entries.set key (.string v) params))
      (scene.outcome path (Entries.set key (.string w) params)) :=
    WorkflowFile.run_apart scene.settings.engine.readsOnly_readKeys (ne_stepsKey hkey) hignores _
  rw [text_run_eq_iff hapart.success]
  cases hsuccess : (scene.outcome path (Entries.set key (.string v) params)).success with
  | false =>
      rw [hapart.toReport_eq hsuccess]
      simp
  | true =>
      obtain ⟨fronts, last, hne, hslots, hlast, hfirst, hsecond⟩ :=
        hapart.exists_fill hkey hsuccess
      obtain ⟨fronts', last', hlength, hfill⟩ := redactWith_fill hkey hslots hlast
      have hne' : fronts' ≠ [] := by
        rintro rfl
        exact hne (List.length_eq_zero_iff.mp hlength.symm)
      have hfenced : ∀ word, Fenced (fill fronts last word) := fun word =>
        fenced_fill hslots hlast
      rw [← String.toList_inj, toList_shown, toList_shown, hfirst, hsecond,
        redactWith_brace (hfenced _), redactWith_brace (hfenced _),
        hfill _ (isShut_quoted hv.chars), hfill _ (isShut_quoted hw.chars)]
      simp [fill_inj hne' last']

/-! ### a secret that no step reads -/

/-- A scene with a workflow file whose only step looks at a region. -/
def regional : Scene where
  settings := .default
  files :=
    ⟨fun names =>
      if names = [] then some .directory
      else if names = ["flow.json".toList] then
        some (.file (some ("\x7b\"steps\": [\x7b\"tool\": \"echo\", \"when\": \"region == 'eu'\"" ++
          ", \"args\": \x7b\"text\": \"to \x7b\x7b region \x7d\x7d\"\x7d\x7d]\x7d")))
      else none, []⟩
  now := "now"

theorem isSecretName_token : IsSecretName "API_TOKEN".toList := ⟨by decide, by decide⟩

/-- Two values that announce a secret themselves, and so do not show it. -/
theorem text_run_secret_iff_regional :
    regional.Ignores "flow.json".toList
        (Entries.set "API_TOKEN" (.string "TOKEN=abc") [("region", .string "eu")]) "API_TOKEN" ∧
      (regional.run "flow.json".toList
          (Entries.set "API_TOKEN" (.string "TOKEN=abc") [("region", .string "eu")]) true).text =
        (regional.run "flow.json".toList
          (Entries.set "API_TOKEN" (.string "TOKEN=xyz") [("region", .string "eu")])
            true).text := by
  have hignores : regional.Ignores "flow.json".toList
      (Entries.set "API_TOKEN" (.string "TOKEN=abc") [("region", .string "eu")]) "API_TOKEN" := by
    decide +kernel
  exact ⟨hignores, (text_run_secret_iff isSecretName_token ⟨by decide, by decide⟩
    ⟨by decide, by decide⟩ hignores).mpr fun _ => by decide⟩

/-- The values of a secret that no step reads are printed with the parameters. -/
theorem prints_secret :
    IsSecretName "API_TOKEN".toList ∧ IsSecret "abc123".toList ∧ IsSecret "xyz789".toList ∧
      regional.Ignores "flow.json".toList
        (Entries.set "API_TOKEN" (.string "abc123") [("region", .string "eu")]) "API_TOKEN" ∧
      (regional.run "flow.json".toList
          (Entries.set "API_TOKEN" (.string "abc123") [("region", .string "eu")]) true).text ≠
        (regional.run "flow.json".toList
          (Entries.set "API_TOKEN" (.string "xyz789") [("region", .string "eu")]) true).text := by
  refine ⟨isSecretName_token, ⟨by decide, by decide⟩, ⟨by decide, by decide⟩,
    by decide +kernel, fun htext => ?_⟩
  rw [text_run_eq_iff (by decide +kernel), ← String.toList_inj, toList_shown, toList_shown] at htext
  revert htext
  decide +kernel

end CommandLine.Scene

end Runbook

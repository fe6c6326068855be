import Runbook.Proofs.Resolver
import Runbook.Proofs.Run.History
import Runbook.Proofs.Run.Simulation

/-!
# Runbook.Proofs.Run.Engines

A workflow without operators runs in the same way with either resolver. Its spans are blank or quiet
paths, and so are its conditions and the sources of its loops, which may also be single spans of
that kind (`IsPlainSource`, `Step.IsOperatorFree`). Such a source looks up one text without
operators (`IsPlainSource.lookUps`), under which both resolvers find the same; the rest is the
simulation of runs.
-/

namespace Runbook

open Template

variable {World : Type}

/-! ## sources -/

/-- No brace stands twice in a row in a key of the path. -/
def PathText.BracesApart (path : PathText) : Prop :=
  ∀ key, Move.entry key ∈ path.moves →
    Text.Undoubled '{' key.chars ∧ Text.Undoubled '}' key.chars

/-- A text without operators and, in its keys, without doubled braces. -/
def IsPlainText (cs : List Char) : Prop :=
  Text.trim cs = [] ∨
    ∃ path : PathText, path.Quiet ∧ path.BracesApart ∧ Text.trim cs = path.chars

/-- A condition or a source of a loop without operators: such a text, bare or as a single span. -/
inductive IsPlainSource : List Char → Prop
  | bare {cs : List Char} (h : IsPlainText cs) : IsPlainSource cs
  | span {cs inner : List Char} (h : IsPlainText inner)
      (hcs : Text.trim cs = opening ++ inner ++ closing) : IsPlainSource cs

/-- A plain text has no operators. -/
theorem IsPlainText.isOperatorFree {cs : List Char} (h : IsPlainText cs) : IsOperatorFree cs := by
  rcases h with hblank | ⟨path, hquiet, -, htrim⟩
  · exact .inl hblank
  · exact .inr ⟨path, hquiet, htrim⟩

/-- Nor has it doubled braces. -/
theorem IsPlainText.undoubled {cs : List Char} (h : IsPlainText cs) {m : Char} (hm : m ∈ braces) :
    Text.Undoubled m cs := by
  refine undoubled_of_trim hm ?_
  rcases h with hblank | ⟨path, hquiet, hapart, htrim⟩
  · rw [hblank]
    exact Text.undoubled_of_notMem (by simp)
  · rw [htrim]
    refine PathText.undoubled hm hquiet fun key hkey => ?_
    simp only [braces, List.mem_cons, List.not_mem_nil, or_false] at hm
    rcases hm with rfl | rfl
    · exact (hapart key hkey).1
    · exact (hapart key hkey).2

/-- Trimming brings no operators in. -/
theorem IsOperatorFree.trim {cs : List Char} (h : IsOperatorFree cs) :
    IsOperatorFree (Text.trim cs) := by
  unfold IsOperatorFree
  rw [Text.trim_trim]
  exact h

/-- Whatever a plain source looks up has no operators. -/
theorem IsPlainSource.lookUps {cs : List Char} (h : IsPlainSource cs) (resolver : Resolver)
    (context : Context) : ∀ e ∈ Template.lookUps resolver context cs, IsOperatorFree e := by
  cases h with
  | bare h =>
      have hopen := h.undoubled (m := '{') (by decide)
      have hnone : Text.occurs opening cs = false := Text.occurs_doubled_eq_false_iff.mpr hopen
      simp only [Template.lookUps, single?_of_undoubled hopen, hnone,
        Bool.false_eq_true, if_false, List.forall_mem_singleton]
      exact h.isOperatorFree
  | span h hcs =>
      have hsingle := single?_eq_some_iff.mpr
        ⟨_, hcs, h.undoubled (by decide), h.undoubled (by decide), rfl⟩
      simp only [Template.lookUps, hsingle, List.forall_mem_singleton]
      exact h.isOperatorFree.trim

/-! ## steps and runs -/

/-- Neither the spans of the step nor its condition nor the source of its loop have operators. -/
structure Step.IsOperatorFree (step : Step) : Prop where
  args : ∀ e ∈ entrySpans step.args, Runbook.IsOperatorFree e
  condition : ∀ s, step.condition = some (.string s) → IsPlainSource s.toList
  conditionSpans : ∀ v, step.condition = some v → v.string? = none →
    ∀ e ∈ valueSpans v, Runbook.IsOperatorFree e
  loop : ∀ s, step.loop = some (.string s) → IsPlainSource s.toList
  loopSpans : ∀ v, step.loop = some v → v.string? = none →
    ∀ e ∈ valueSpans v, Runbook.IsOperatorFree e

namespace Step.IsOperatorFree

variable {step : Step} (h : step.IsOperatorFree) (resolver : Resolver) (context : Context)
include h

/-- What the condition of such a step looks up has no operators. -/
theorem conditionLookUps :
    ∀ e ∈ step.conditionLookUps resolver context, Runbook.IsOperatorFree e := by
  intro e he
  obtain ⟨v, hv, hmem⟩ := exists_of_mem_conditionLookUps he
  have hstring : ∀ s, v = .string s → IsPlainSource s.toList := fun s hs =>
    h.condition s (hs ▸ hv)
  exact Value.forall_mem_lookUps (fun s hs => (hstring s hs).lookUps resolver context)
    (h.conditionSpans v hv) e hmem

/-- Nor has what its loop looks up. -/
theorem loopLookUps : ∀ e ∈ step.loopLookUps resolver context, Runbook.IsOperatorFree e := by
  intro e he
  obtain ⟨v, hv, hmem⟩ := exists_of_mem_loopLookUps he
  have hstring : ∀ s, v = .string s → IsPlainSource s.toList := fun s hs => h.loop s (hs ▸ hv)
  exact Value.forall_mem_lookUps (fun s hs => (hstring s hs).lookUps resolver context)
    (h.loopSpans v hv) e hmem

end Step.IsOperatorFree

/-- **Without operators the resolvers run alike.** If no step of a document has operators, the run
with the rich resolver and the run with the basic one have the same outcome and the same world
behind them. -/
theorem execute_rich_eq_basic (interpreter : Interpreter World) {document : Value}
    (hsteps : ∀ raw ∈ Interpreter.stepsOf document, ∀ step, Step.ofValue raw = .ok step →
      step.IsOperatorFree)
    (params : Entries) (world : World) :
    (interpreter.withResolver .rich).execute document params world =
      (interpreter.withResolver .basic).execute document params world := by
  have hresolve : ∀ e, IsOperatorFree e → ∀ context other : Context, context = other →
      Resolver.rich.resolve context e = Resolver.basic.resolve other e := by
    rintro e he context other rfl
    exact Resolver.evaluate_eq_lookUp he context
  unfold Interpreter.stepsOf at hsteps
  unfold Interpreter.execute
  cases hdocument : Document.steps (some document) with
  | error defect => rfl
  | ok raws =>
      rw [hdocument] at hsteps
      have halike : Stage.Alike Eq
          ((interpreter.withResolver .rich).runSteps raws (.ofParameters params) world)
          ((interpreter.withResolver .basic).runSteps raws (.ofParameters params) world) := by
        refine Interpreter.alike_runSteps (interpreter.withResolver .rich) .basic Context.kept_eq
          rfl ?_
        rintro before raw after step rfl hread - other rfl
        have hfree := hsteps raw (by simp [Except.toOption]) step hread
        exact Interpreter.indistinct_of_lookUps
          (fun e he => hresolve e (hfree.conditionLookUps _ _ e he) _ _ rfl)
          (fun e he => hresolve e (hfree.loopLookUps _ _ e he) _ _ rfl)
          (fun e he => hresolve e (hfree.args e he))
      simp only [halike.eq]

/-! ## a workflow with operators in its keys -/

/-- A capability that reports its arguments. -/
def mirror : Capability Unit := ⟨"", fun args world => (.ok (.succeeded (.object args)), world)⟩

/-- A step whose keys look like operators: in a span, in a bare condition and in a single span. -/
def quotedStep : Value :=
  .object [("id", .string "a"), ("tool", .string "mirror"), ("when", .string "flags['x || y']"),
    ("loop", .string "\x7b\x7b lists['(1 < 2)'] \x7d\x7d"),
    ("args", .object [("text", .string "so \x7b\x7b steps['a && b'].output \x7d\x7d")])]

/-- A path with a quoted key is plain if the key has no doubled braces. -/
theorem isPlainText_entryOf {cs : List Char} (name : Identifier) (key : String)
    (hkey : '\'' ∉ key.toList)
    (hapart : Text.Undoubled '{' key.toList ∧ Text.Undoubled '}' key.toList)
    (hcs : Text.trim cs = (entryOf name key hkey).chars) : IsPlainText cs := by
  refine .inr ⟨entryOf name key hkey, quiet_entryOf name key hkey, ?_, hcs⟩
  intro quoted hquoted
  have hquoted : quoted = ⟨'\'', rfl, key.toList, hkey⟩ := by simpa [entryOf] using hquoted
  rw [hquoted]
  exact hapart

def flagsName : Identifier := ⟨⟨"flags".toList, by decide, by decide⟩, by simp, by decide⟩

def listsName : Identifier := ⟨⟨"lists".toList, by decide, by decide⟩, by simp, by decide⟩

/-- The engines agree on a step that reads a quoted key. -/
theorem execute_rich_eq_basic_quotedStep :
    (∀ raw ∈ Interpreter.stepsOf (.object [("steps", .array [quotedStep])]), ∀ step,
      Step.ofValue raw = .ok step → step.IsOperatorFree) ∧
    ∀ params world,
      (Interpreter.withResolver ⟨[("mirror", mirror)], .rich, none, none⟩ .rich).execute
          (.object [("steps", .array [quotedStep])]) params world =
        (Interpreter.withResolver ⟨[("mirror", mirror)], .rich, none, none⟩
          .basic).execute (.object [("steps", .array [quotedStep])]) params world := by
  have hsteps : ∀ raw ∈ Interpreter.stepsOf (.object [("steps", .array [quotedStep])]), ∀ step,
      Step.ofValue raw = .ok step → step.IsOperatorFree := by
    intro raw hraw step hread
    obtain rfl := List.mem_singleton.mp hraw
    cases hread
    refine ⟨?_, ?_, ?_, ?_, ?_⟩
    · intro e he
      obtain rfl : e = (PathText.outputOf "a && b" (by decide)).chars := List.mem_singleton.mp he
      exact .inr ⟨_, PathText.quiet_outputOf _ _, (PathText.solid _).trim_eq⟩
    · rintro s hs
      cases hs
      exact .bare (isPlainText_entryOf flagsName "x || y" (by decide) (by decide +kernel)
        (by decide +kernel))
    · rintro v hv hstring
      cases hv
      contradiction
    · rintro s hs
      cases hs
      have hinner : IsPlainText " lists['(1 < 2)'] ".toList :=
        isPlainText_entryOf listsName "(1 < 2)" (by decide) (by decide +kernel) (by decide +kernel)
      exact .span hinner (by decide +kernel)
    · rintro v hv hstring
      cases hv
      contradiction
  exact ⟨hsteps, execute_rich_eq_basic _ hsteps⟩

end Runbook

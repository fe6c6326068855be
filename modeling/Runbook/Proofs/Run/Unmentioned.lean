import Runbook.Proofs.Run.Influence

/-!
# Runbook.Proofs.Run.Unmentioned

Parameters that a workflow does not mention. What a step comes to look up depends on the run only
where its condition or the source of its loop mixes spans with other text. A source that is a single
span, or has no span, looks up a part of its own text (`Template.IsUnmixed.infix_of_mem_lookUps`).
So in a document without mixed sources the text tells which parameters count: the value of a key
that is not mentioned has no influence on a run (`Interpreter.execute_of_unmentioned`).
-/

namespace Runbook

open Template

variable {World : Type}

/-! ## sources -/

namespace Template

/-- The source is a single span, or has no span. -/
def IsUnmixed (cs : List Char) : Prop := (single? cs).isSome = true ∨ spans cs = []

instance (cs : List Char) : Decidable (IsUnmixed cs) :=
  inferInstanceAs (Decidable (_ = true ∨ _ = []))

/-- The expression of a single span stands in the text. -/
theorem infix_of_single? {cs e : List Char} (h : single? cs = some e) : e <:+: cs := by
  obtain ⟨inner, htrim, -, -, rfl⟩ := single?_eq_some_iff.mp h
  have hinner : inner <:+: Text.trim cs := ⟨opening, closing, htrim.symm⟩
  exact (Text.infix_trim inner).trans (hinner.trans (Text.infix_trim cs))

/-- Without spans there is nothing to fill in. -/
theorem renderData_of_spans_eq_nil {cs : List Char} (h : spans cs = []) (resolver : Resolver)
    (context : Context) : renderData resolver context cs = cs := by
  have hplain : ∀ piece ∈ pieces cs, ∀ write,
      writePiece resolver context write piece = source piece := by
    intro piece hpiece write
    cases piece with
    | plain cs => rfl
    | span inner =>
        have hspan := mem_spans hpiece
        simp [h] at hspan
  rw [renderData, List.flatMap_congr fun piece hpiece => hplain piece hpiece _, source_pieces]

/-- Whatever an unmixed source looks up stands in the source. -/
theorem IsUnmixed.infix_of_mem_lookUps {cs e : List Char} (h : IsUnmixed cs) {resolver : Resolver}
    {context : Context} (he : e ∈ lookUps resolver context cs) : e <:+: cs := by
  unfold lookUps at he
  cases hsingle : single? cs with
  | some inner =>
      obtain rfl : e = inner := by simpa only [hsingle, List.mem_singleton] using he
      exact infix_of_single? hsingle
  | none =>
      have hspans : spans cs = [] := by simpa [IsUnmixed, hsingle] using h
      have hself : e = cs := by
        simpa only [hsingle, hspans, renderData_of_spans_eq_nil hspans, ite_self,
          List.mem_singleton] using he
      exact hself ▸ List.infix_refl cs

end Template

/-! ## steps -/

namespace Value

/-- The texts of a condition or of the source of a loop: a string as a whole, and the spans of any
other value. -/
def sources : Value → List (List Char)
  | .string s => [s.toList]
  | v => valueSpans v

/-- What an unmixed value looks up stands in one of its sources. -/
theorem exists_source {v : Value} (h : ∀ s, v = .string s → IsUnmixed s.toList)
    {resolver : Resolver} {context : Context} {e : List Char}
    (he : e ∈ v.lookUps resolver context) : ∃ cs ∈ v.sources, e <:+: cs := by
  cases v with
  | string s =>
      exact ⟨s.toList, List.mem_singleton_self _, (h s rfl).infix_of_mem_lookUps he⟩
  | null | bool b | number n | array items | object entries => exact ⟨e, he, List.infix_refl e⟩

end Value

namespace Step

/-- The texts of a step that are looked up in some way. -/
def texts (step : Step) : List (List Char) :=
  step.condition.toList.flatMap Value.sources ++
    (step.loop.toList.flatMap Value.sources ++ entrySpans step.args)

/-- The key stands in a text of the step. -/
def Mentions (step : Step) (key : String) : Prop := ∃ cs ∈ step.texts, Runbook.Mentions cs key

instance (step : Step) (key : String) : Decidable (step.Mentions key) :=
  inferInstanceAs (Decidable (∃ cs ∈ step.texts, Runbook.Mentions cs key))

/-- Neither the condition of the step nor the source of its loop is mixed. -/
structure IsUnmixed (step : Step) : Prop where
  condition : ∀ s, step.condition = some (.string s) → Template.IsUnmixed s.toList
  loop : ∀ s, step.loop = some (.string s) → Template.IsUnmixed s.toList

/-- An unmixed step ignores a key that it does not mention. -/
theorem IsUnmixed.ignores {step : Step} (h : step.IsUnmixed) {key : String}
    (hkey : ¬step.Mentions key) (engine : Engine) (context : Context) :
    step.Ignores engine.readKeys key engine.resolver context := by
  have hpart : ∀ cs ∈ step.texts, ∀ e, e <:+: cs → key ∉ engine.readKeys e :=
    fun cs hcs e hinfix hread =>
      hkey ⟨cs, hcs, (engine.mentions_of_mem_readKeys hread).mono hinfix⟩
  refine ⟨fun e he => ?_, fun e he => ?_, fun e he => ?_⟩
  · obtain ⟨v, hv, hmem⟩ := exists_of_mem_conditionLookUps he
    obtain ⟨cs, hcs, hinfix⟩ := Value.exists_source (fun s hs => h.condition s (hs ▸ hv)) hmem
    exact hpart cs (by simp [texts, hv, hcs]) e hinfix
  · obtain ⟨v, hv, hmem⟩ := exists_of_mem_loopLookUps he
    obtain ⟨cs, hcs, hinfix⟩ := Value.exists_source (fun s hs => h.loop s (hs ▸ hv)) hmem
    exact hpart cs (by simp [texts, hv, hcs]) e hinfix
  · exact hpart e (by simp [texts, he]) e (List.infix_refl e)

end Step

/-! ## parameters that differ in one value -/

namespace Entries

/-- The same keys in the same order, each of them once, and the same values but for one key. -/
structure SameBut (key : String) (first second : Entries) : Prop where
  nodup : (keys first).Nodup
  entries : List.Forall₂ (fun e f => e.1 = f.1 ∧ (e.1 ≠ key → e.2 = f.2)) first second

variable {key : String} {first second : Entries}

/-- Entries without the key that differ there only do not differ. -/
theorem SameBut.eq_of_notMem (h : SameBut key first second) (hkey : key ∉ keys first) :
    first = second := by
  obtain ⟨-, hentries⟩ := h
  induction hentries with
  | nil => rfl
  | @cons e f first second hef _ ih =>
      obtain ⟨hne, hrest⟩ := not_or.mp (List.mem_cons.not.mp hkey)
      rw [Prod.ext hef.1 (hef.2 (Ne.symm hne)), ih hrest]

/-- Such mappings are the same, or the same but for what the key is set to. -/
theorem SameBut.exists_set (h : SameBut key first second) :
    first = second ∨ ∃ v w, first = set key v first ∧ second = set key w first := by
  obtain ⟨hnodup, hentries⟩ := h
  induction hentries with
  | nil => exact .inl rfl
  | @cons e f first second hef hrest ih =>
      obtain ⟨k, x⟩ := e
      obtain ⟨k', y⟩ := f
      obtain ⟨rfl, hvalue⟩ : k = k' ∧ (k ≠ key → x = y) := hef
      obtain ⟨hk, hnodup⟩ := List.nodup_cons.mp hnodup
      by_cases hkey : k = key
      · subst hkey
        have hsame : first = second := SameBut.eq_of_notMem ⟨hnodup, hrest⟩ hk
        exact .inr ⟨x, y, by simp [set], by simp [set, hsame]⟩
      · obtain rfl := hvalue hkey
        rcases ih hnodup with rfl | ⟨v, w, hfirst, hsecond⟩
        · exact .inl rfl
        · refine .inr ⟨v, w, ?_, ?_⟩
          · rw [set, if_neg hkey, ← hfirst]
          · rw [set, if_neg hkey, ← hsecond]

end Entries

/-! ## outcomes -/

/-- The outcomes tell the same, but for the value of a key in the final context. -/
structure Outcome.SameBut (key : String) (first second : Outcome) : Prop where
  success : first.success = second.success
  output : first.output = second.output
  transcript : first.trace.transcript = second.trace.transcript
  visits : first.trace.visits = second.trace.visits
  invocations : first.trace.invocations = second.trace.invocations
  failedStep : first.failedStep = second.failedStep
  context : ∀ name, name ≠ key → Entries.get? name first.context = Entries.get? name second.context

/-- Outcomes that stand apart in a parameter are the same but for it. -/
theorem Outcome.Apart.sameBut {key : String} {v w : Value} {params : Entries}
    {first second : Outcome} (h : Apart key v w params first second) : SameBut key first second :=
  ⟨h.success, h.output, by rw [h.trace], by rw [h.trace], by rw [h.trace], h.failedStep,
    fun _ hname => h.context.get?_eq hname⟩

namespace Interpreter

/-- **Parameters that are not mentioned have no influence.** If no step of a document is mixed or
mentions a key, two runs with parameters that differ in the value of the key have the same outcome
and the same world behind them, but for the value of the key in the final context. -/
theorem execute_of_unmentioned (interpreter : Interpreter World) (engine : Engine)
    {document : Value} {key : String} (hkey : key ≠ Context.stepsKey)
    (hsteps : ∀ raw ∈ stepsOf document, ∀ step, Step.ofValue raw = .ok step →
      step.IsUnmixed ∧ ¬step.Mentions key)
    {params others : Entries} (hparams : Entries.SameBut key params others) (world : World) :
    Outcome.SameBut key
        ((interpreter.withResolver engine.resolver).execute document params world).1
        ((interpreter.withResolver engine.resolver).execute document others world).1 ∧
      ((interpreter.withResolver engine.resolver).execute document params world).2 =
        ((interpreter.withResolver engine.resolver).execute document others world).2 := by
  rcases hparams.exists_set with rfl | ⟨v, w, hfirst, hsecond⟩
  · exact ⟨⟨rfl, rfl, rfl, rfl, rfl, rfl, fun _ _ => rfl⟩, rfl⟩
  · have hignores : (interpreter.withResolver engine.resolver).Ignores engine.readKeys key
        (stepsOf document) (.ofParameters (Entries.set key v params)) world := by
      intro before raw after step hraws hread _
      obtain ⟨hunmixed, hunmentioned⟩ := hsteps raw (by simp [hraws]) step hread
      exact hunmixed.ignores hunmentioned engine _
    have hapart := execute_apart (interpreter.withResolver engine.resolver)
      engine.readsOnly_readKeys hkey w hignores
    rw [← hfirst, ← hsecond] at hapart
    exact ⟨hapart.1.sameBut, hapart.2⟩

end Interpreter

/-! ### a token that is not mentioned -/

/-- A capability that counts its invocations. -/
def tally : Capability Nat := ⟨"", fun _ count => (.ok (.succeeded (.ofNat count)), count + 1)⟩

/-- A step with a single span for its condition and a source without spans for its loop. -/
def stagedStep : Value :=
  .object [("id", .string "deploy"), ("tool", .string "tally"),
    ("when", .string "\x7b\x7b region == 'eu' \x7d\x7d"), ("loop", .string "stages"),
    ("args", .object [("text", .string "to \x7b\x7b item \x7d\x7d in \x7b\x7b region \x7d\x7d")])]

/-- Parameters with a token. -/
def stagedParameters (token : String) : Entries :=
  [("token", .string token), ("region", .string "eu"),
    ("stages", .array [.string "test", .string "live"])]

/-- A step that does not mention the token runs alike for two values of it. -/
theorem execute_of_unmentioned_token :
    (∀ raw ∈ Interpreter.stepsOf (.object [("steps", .array [stagedStep])]), ∀ step,
        Step.ofValue raw = .ok step → step.IsUnmixed ∧ ¬step.Mentions "token") ∧
      Entries.SameBut "token" (stagedParameters "abc") (stagedParameters "xyz") ∧
      Outcome.SameBut "token"
        ((Interpreter.withResolver ⟨[("tally", tally)], .rich, none, none⟩ .rich).execute
          (.object [("steps", .array [stagedStep])]) (stagedParameters "abc") 0).1
        ((Interpreter.withResolver ⟨[("tally", tally)], .rich, none, none⟩ .rich).execute
          (.object [("steps", .array [stagedStep])]) (stagedParameters "xyz") 0).1 := by
  have hsteps : ∀ raw ∈ Interpreter.stepsOf (.object [("steps", .array [stagedStep])]), ∀ step,
      Step.ofValue raw = .ok step → step.IsUnmixed ∧ ¬step.Mentions "token" := by
    intro raw hraw step hread
    obtain rfl := List.mem_singleton.mp hraw
    cases hread
    refine ⟨⟨?_, ?_⟩, by decide +kernel⟩
    · rintro s hs
      cases hs
      decide +kernel
    · rintro s hs
      cases hs
      decide +kernel
  have hparams : Entries.SameBut "token" (stagedParameters "abc") (stagedParameters "xyz") :=
    ⟨by decide, .cons ⟨rfl, fun h => absurd rfl h⟩
      (.cons ⟨rfl, fun _ => rfl⟩ (.cons ⟨rfl, fun _ => rfl⟩ .nil))⟩
  exact ⟨hsteps, hparams,
    (Interpreter.execute_of_unmentioned _ .rich (by decide) hsteps hparams 0).1⟩

end Runbook

import Runbook.Proofs.Template
import Runbook.Run.Interpreter

/-!
# Runbook.Proofs.Run.Simulation

Two runs side by side. They have the same capabilities and the same world, but may resolve texts in
different ways and start in different contexts. Their contexts are related by a relation that every
write keeps (`Context.Kept`). If no step can tell the two sides apart where the first run comes to
it (`Interpreter.Indistinct`), the two runs do the same from beginning to end
(`Interpreter.alike_runSteps`).

What a step can tell apart is told by the texts that it looks up (`indistinct_of_lookUps`).
-/

namespace Runbook

variable {World : Type}

/-- A relation between contexts that every write keeps. -/
structure Context.Kept (R : Context → Context → Prop) : Prop where
  set : ∀ {context other : Context}, R context other → ∀ key value,
    R (context.set key value) (other.set key value)
  record : ∀ {context other : Context}, R context other → ∀ id report,
    R (context.record id report) (other.record id report)

/-- Equality of contexts is kept by all that a run writes. -/
theorem Context.kept_eq : Context.Kept Eq :=
  ⟨fun h _ _ => by rw [h], fun h _ _ => by rw [h]⟩

/-! ## what a step looks up -/

/-- The texts that a step looks up for its condition. -/
def Step.conditionLookUps (step : Step) (resolver : Resolver) (context : Context) :
    List (List Char) :=
  match step.condition with
  | none => []
  | some (.string s) => Template.lookUps resolver context s.toList
  | some v => Template.valueSpans v

/-- The texts that a step looks up for the items of its loop. -/
def Step.loopLookUps (step : Step) (resolver : Resolver) (context : Context) :
    List (List Char) :=
  match step.loop with
  | some (.string s) => Template.lookUps resolver context s.toList
  | some (.array items) => Template.itemSpans items
  | _ => []

section LookUps

variable {resolver : Resolver} {context : Context}

/-- The texts that are looked up for a value as a condition or as the source of a loop. -/
def Value.lookUps (resolver : Resolver) (context : Context) : Value → List (List Char)
  | .string s => Template.lookUps resolver context s.toList
  | v => Template.valueSpans v

/-- A value looks up what its text does, or what its spans do if it is no text. -/
theorem Value.forall_mem_lookUps {P : List Char → Prop} {v : Value}
    (hstring : ∀ s, v = .string s → ∀ e ∈ Template.lookUps resolver context s.toList, P e)
    (hspans : v.string? = none → ∀ e ∈ Template.valueSpans v, P e) :
    ∀ e ∈ v.lookUps resolver context, P e := by
  cases v with
  | string s => exact hstring s rfl
  | null | bool b | number n | array items | object entries => exact hspans rfl

namespace Step

variable {step : Step} {e : List Char}

/-- What a step looks up for its condition, the condition looks up. -/
theorem exists_of_mem_conditionLookUps (he : e ∈ step.conditionLookUps resolver context) :
    ∃ v, step.condition = some v ∧ e ∈ v.lookUps resolver context := by
  cases hcase : step.condition with
  | none => simp [conditionLookUps, hcase] at he
  | some v =>
      refine ⟨v, rfl, ?_⟩
      cases v <;> simpa only [conditionLookUps, hcase, Value.lookUps] using he

/-- A value that is neither a string nor a list is no source of a loop and looks up nothing. -/
theorem exists_of_mem_loopLookUps (he : e ∈ step.loopLookUps resolver context) :
    ∃ v, step.loop = some v ∧ e ∈ v.lookUps resolver context := by
  cases hcase : step.loop with
  | none => simp [loopLookUps, hcase] at he
  | some v =>
      refine ⟨v, rfl, ?_⟩
      cases v with
      | string s | array items =>
          simpa only [loopLookUps, hcase, Value.lookUps, Template.valueSpans] using he
      | null | bool b | number n | object entries => simp [loopLookUps, hcase] at he

end Step

end LookUps

/-! ## stages -/

/-- Two parts of runs in which the same happened, with related contexts behind them. -/
structure Stage.Alike (R : Context → Context → Prop) (first second : Stage World) : Prop where
  context : R first.context second.context
  world : first.world = second.world
  trace : first.trace = second.trace
  ending : first.ending = second.ending

namespace Stage

variable {R : Context → Context → Prop} {first second : Stage World}

/-- The same trace put in both stages keeps them alike. -/
theorem Alike.withTrace (h : Alike R first second) (trace : Trace) :
    Alike R { first with trace := trace ++ first.trace }
      { second with trace := trace ++ second.trace } :=
  ⟨h.context, h.world, congrArg (trace ++ ·) h.trace, h.ending⟩

/-- Parts with the same context behind them are the same. -/
theorem Alike.eq (h : Alike Eq first second) : first = second := by
  obtain ⟨context, world, trace, ending⟩ := first
  obtain ⟨rfl, rfl, rfl, rfl⟩ := h
  rfl

/-- Stages that do nothing are alike if their contexts are. -/
theorem alike_still {context other : Context} (h : R context other) (world : World)
    (ending : Ending) : Alike R (still context world ending) (still other world ending) :=
  ⟨h, rfl, rfl, rfl⟩

/-- What follows has to be alike only behind a part that is done. -/
theorem Alike.andThen (h : Alike R first second) {f g : Context → World → Stage World}
    (hnext : first.ending = .done → ∀ other, R first.context other →
      Alike R (f first.context first.world) (g other first.world)) :
    Alike R (first.andThen f) (second.andThen g) := by
  obtain ⟨context, world, trace, ending⟩ := first
  obtain ⟨other, world', trace', ending'⟩ := second
  obtain ⟨hcontext, rfl, rfl, rfl⟩ := h
  cases ending with
  | done => exact (hnext rfl other hcontext).withTrace trace
  | cancelled | aborted => exact ⟨hcontext, rfl, rfl, rfl⟩

end Stage

/-! ## runs -/

namespace Interpreter

variable (interpreter : Interpreter World)

/-- The interpreter with another way to resolve texts. -/
def withResolver (resolver : Resolver) : Interpreter World := { interpreter with resolver }

/-- The step does in the one context what it does in the other, where texts are resolved in another
way. A loop may bind its items before the arguments are rendered, so these are compared in all
related contexts. -/
structure Indistinct (resolver : Resolver) (R : Context → Context → Prop) (step : Step)
    (context other : Context) : Prop where
  holds : interpreter.holds step context = (interpreter.withResolver resolver).holds step other
  items : interpreter.items? step context = (interpreter.withResolver resolver).items? step other
  args : ∀ context other, R context other →
    Template.renderEntries interpreter.resolver context step.args =
      Template.renderEntries resolver other step.args

variable {interpreter} {R : Context → Context → Prop} {context other : Context}
  {resolver : Resolver} {step : Step}

/-- A step that finds the same under all texts that it looks up cannot tell two contexts apart. -/
theorem indistinct_of_lookUps
    (hcondition : ∀ e ∈ step.conditionLookUps interpreter.resolver context,
      interpreter.resolver.resolve context e = resolver.resolve other e)
    (hloop : ∀ e ∈ step.loopLookUps interpreter.resolver context,
      interpreter.resolver.resolve context e = resolver.resolve other e)
    (hargs : ∀ e ∈ Template.entrySpans step.args, ∀ context other, R context other →
      interpreter.resolver.resolve context e = resolver.resolve other e) :
    interpreter.Indistinct resolver R step context other where
  holds := by
    unfold Step.conditionLookUps at hcondition
    unfold holds
    cases hcase : step.condition with
    | none => rfl
    | some v =>
        simp only [withResolver, hcase] at hcondition ⊢
        cases v with
        | string s => exact congrArg conditionTruth (Template.resolveText_congr hcondition)
        | null | bool b | number n | array items | object entries =>
            exact congrArg (conditionTruth ∘ some) (Template.renderValue_congr _ hcondition)
  items := by
    unfold Step.loopLookUps at hloop
    unfold items?
    cases hcase : step.loop with
    | none => rfl
    | some v =>
        simp only [withResolver, hcase] at hloop ⊢
        cases v with
        | string s => exact congrArg (Option.bind · sequence?) (Template.resolveText_congr hloop)
        | array items => exact congrArg some (Template.renderItems_congr _ hloop)
        | null | bool b | number n | object entries => rfl
  args context other h := Template.renderEntries_congr step.args fun e he => hargs e he _ _ h

/-- The flag has nothing to do with the resolver: two runs look at it in the same world, and stop
both or go on both. -/
theorem alike_atSafePoint (h : R context other) (world : World) {f g : World → Stage World}
    (hnext : interpreter.isCancelled (interpreter.meanwhile world) = false →
      Stage.Alike R (f (interpreter.meanwhile world)) (g (interpreter.meanwhile world))) :
    Stage.Alike R (interpreter.atSafePoint context world f)
      ((interpreter.withResolver resolver).atSafePoint other world g) := by
  have hsame : (interpreter.withResolver resolver).atSafePoint other world g =
      interpreter.atSafePoint other world g := rfl
  rw [hsame, atSafePoint_eq, atSafePoint_eq]
  split
  · exact Stage.alike_still h _ _
  · next hgoing => exact hnext (by simpa using hgoing)

variable (hkept : Context.Kept R)
include hkept

/-- A commit keeps contexts related. -/
theorem kept_commit (h : R context other) (step : Step) (report : Report) :
    R (commit step report context) (commit step report other) := by
  unfold commit
  cases step.assign with
  | none => exact hkept.record h _ _
  | some key => exact hkept.record (hkept.set h _ _) _ _

/-- So does settling a report. -/
theorem alike_settle (h : R context other) (step : Step) (iteration : Option Nat)
    (report : Report) (attempts : Nat) (message : String) (world : World) :
    Stage.Alike R (settle step iteration report attempts message context world)
      (settle step iteration report attempts message other world) := by
  unfold settle
  split
  · exact ⟨kept_commit hkept h _ _, rfl, rfl, rfl⟩
  · split
    · exact ⟨kept_commit hkept h _ _, rfl, rfl, rfl⟩
    · exact ⟨h, rfl, rfl, rfl⟩

/-- Bodies whose arguments are rendered alike run alike. -/
theorem alike_runBody (h : R context other)
    (hargs : Template.renderEntries interpreter.resolver context step.args =
      Template.renderEntries resolver other step.args)
    (iteration : Option Nat) (world : World) :
    Stage.Alike R (interpreter.runBody step iteration context world)
      ((interpreter.withResolver resolver).runBody step iteration other world) := by
  unfold runBody
  simp only [withResolver, delay?, hargs]
  split
  · exact alike_settle hkept h _ _ _ _ _ _
  · exact (alike_settle hkept h _ _ _ _ _ _).withTrace _

/-- So do the items of a loop. -/
theorem alike_runItems (h : R context other)
    (hargs : ∀ context other, R context other →
      Template.renderEntries interpreter.resolver context step.args =
        Template.renderEntries resolver other step.args)
    (iteration : Nat) (items : List Value) (world : World) :
    Stage.Alike R (interpreter.runItems step iteration items context world)
      ((interpreter.withResolver resolver).runItems step iteration items other world) := by
  induction items generalizing iteration context other world with
  | nil => exact Stage.alike_still h _ _
  | cons item items ih =>
      have hitem := hkept.set h step.loopVariable item
      rw [runItems, runItems]
      refine alike_atSafePoint h world fun _ => ?_
      exact (alike_runBody hkept hitem (hargs _ _ hitem) _ _).andThen
        fun _ other' hother' => ih hother' _ _

/-- So does a step that the two resolvers do not tell apart. -/
theorem alike_runStep (h : R context other)
    (hstep : interpreter.Indistinct resolver R step context other) (world : World) :
    Stage.Alike R (interpreter.runStep step context world)
      ((interpreter.withResolver resolver).runStep step other world) := by
  rw [runStep, runStep, ← hstep.holds, ← hstep.items]
  split
  · split
    · exact alike_runItems hkept h hstep.args _ _ _
    · exact alike_runBody hkept h (hstep.args _ _ h) _ _
  · exact ⟨h, rfl, rfl, rfl⟩

variable (interpreter) (resolver)

/-- Two runs do the same if no step that the first one comes to tells them apart. -/
theorem alike_runSteps {raws : List Value} {world : World} (h : R context other)
    (hsteps : ∀ before raw after step, raws = before ++ raw :: after → Step.ofValue raw = .ok step →
      (interpreter.runSteps before context world).ending = .done →
      ∀ other, R (interpreter.runSteps before context world).context other →
        interpreter.Indistinct resolver R step
          (interpreter.runSteps before context world).context other) :
    Stage.Alike R (interpreter.runSteps raws context world)
      ((interpreter.withResolver resolver).runSteps raws other world) := by
  induction raws generalizing context other world with
  | nil => exact Stage.alike_still h _ _
  | cons raw raws ih =>
      rw [runSteps, runSteps]
      refine alike_atSafePoint h world fun hgoing => ?_
      cases hread : Step.ofValue raw with
      | error misfit => exact ⟨h, rfl, rfl, rfl⟩
      | ok step =>
          have hfirst := hsteps [] raw raws step rfl hread rfl other h
          refine (alike_runStep hkept h hfirst _).andThen fun hdone other' hother' =>
            ih hother' ?_
          -- the steps behind the first one are met in the context that it leaves
          intro before raw' after step' hsplit hread' hending other'' hother''
          have hrun := interpreter.runSteps_of_ok context hgoing hread before
          generalize interpreter.runStep step context (interpreter.meanwhile world) = stage at *
          have hthen : (interpreter.runSteps (raw :: before) context world).context =
              (interpreter.runSteps before stage.context stage.world).context ∧
              (interpreter.runSteps (raw :: before) context world).ending =
                (interpreter.runSteps before stage.context stage.world).ending := by
            rw [hrun, Stage.andThen, hdone]
            exact ⟨rfl, rfl⟩
          have hlater := hsteps (raw :: before) raw' after step' (by rw [hsplit]; rfl) hread'
          rw [hthen.1, hthen.2] at hlater
          exact hlater hending other'' hother''

end Interpreter

end Runbook

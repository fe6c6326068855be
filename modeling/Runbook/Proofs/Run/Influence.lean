import Runbook.Proofs.Mention
import Runbook.Proofs.Run.History
import Runbook.Proofs.Run.Simulation
import Runbook.Settings.Basic

/-!
# Runbook.Proofs.Run.Influence

A parameter that a run does not read. Two contexts that differ in the value of one key stay so, or
become the same, whatever else is written to them (`Context.Apart`). A step ignores a key if no text
that it looks up reads the key (`Step.Ignores`); then it does the same in both contexts. So if no
step of a run reads a parameter, the run is the same for all values of it
(`Interpreter.execute_apart`).

For both engines it is known which keys are read for a text (`Engine.readsOnly_readKeys`), and these
are mentioned in the text (`Engine.mentions_of_mem_readKeys`).
-/

namespace Runbook

variable {World : Type}

/-! ## entries -/

namespace Entries

/-- The second value set under a key replaces the first. -/
theorem set_set (key : String) (v w : Value) (entries : Entries) :
    set key v (set key w entries) = set key v entries := by
  induction entries with
  | nil => simp [set]
  | cons e rest ih =>
      obtain ⟨k, x⟩ := e
      by_cases hk : k = key
      · simp [set, hk]
      · simp [set, hk, ih]

/-- A key that is there already keeps its place, so another one can be bound before or after. -/
theorem set_comm {key other : String} (hne : other ≠ key) {entries : Entries}
    (hkey : key ∈ keys entries) (v w : Value) :
    set other w (set key v entries) = set key v (set other w entries) := by
  induction entries with
  | nil => simp [keys] at hkey
  | cons e rest ih =>
      obtain ⟨k, x⟩ := e
      by_cases hk : k = key
      · subst hk
        simp [set, Ne.symm hne]
      · have hrest : key ∈ keys rest := by simpa [keys, Ne.symm hk] using hkey
        by_cases hother : k = other
        · subst hother
          simp [set, hk]
        · simp [set, hk, hother, ih hrest]

/-- Setting an entry adds its key and no other. -/
theorem mem_keys_set {key other : String} {entries : Entries} (value : Value) :
    other ∈ keys (set key value entries) ↔ other = key ∨ other ∈ keys entries := by
  rw [keys_set]
  split
  · next hkey =>
      constructor
      · exact .inr
      · rintro (rfl | hother)
        · exact hkey
        · exact hother
  · rw [List.mem_append, List.mem_singleton, or_comm]

end Entries

/-! ## contexts -/

/-- The contexts are the same, or the same but for the value of one key. -/
inductive Context.Apart (key : String) (v w : Value) : Context → Context → Prop
  | same (context : Context) : Apart key v w context context
  | apart (entries : Entries) (hkey : key ∈ Entries.keys entries) :
      Apart key v w ⟨Entries.set key v entries⟩ ⟨Entries.set key w entries⟩

namespace Context

variable {key : String} {v w : Value} {context other : Context}

/-- Two values set under one key make contexts that differ there only. -/
theorem apart_set (key : String) (v w : Value) (entries : Entries) :
    Apart key v w ⟨Entries.set key v entries⟩ ⟨Entries.set key w entries⟩ := by
  have hkey : key ∈ Entries.keys (Entries.set key v entries) :=
    (Entries.mem_keys_set v).mpr (.inl rfl)
  simpa only [Entries.set_set] using Apart.apart (v := v) (w := w) _ hkey

/-- An entry set in both contexts keeps them apart in the key only. -/
theorem Apart.setEntry (h : Apart key v w context other) (name : String) (x : Value) :
    Apart key v w ⟨Entries.set name x context.entries⟩ ⟨Entries.set name x other.entries⟩ := by
  cases h with
  | same context => exact .same _
  | apart entries hkey =>
      by_cases hname : name = key
      · subst hname
        rw [Entries.set_set, Entries.set_set]
        exact .same _
      · rw [Entries.set_comm hname hkey, Entries.set_comm hname hkey]
        exact .apart _ ((Entries.mem_keys_set x).mpr (.inr hkey))

/-- Any other key reads the same. -/
theorem Apart.get?_eq (h : Apart key v w context other) {name : String} (hname : name ≠ key) :
    context.get? name = other.get? name := by
  cases h with
  | same context => rfl
  | apart entries hkey => simp only [get?, Entries.get?_set, if_neg (Ne.symm hname)]

/-- Unless the key is the reserved one, no write brings the contexts further apart. -/
theorem kept_apart (hkey : key ≠ stepsKey) (v w : Value) : Kept (Apart key v w) where
  set := by
    intro context other h name x
    unfold Context.set
    split
    · exact h
    · exact h.setEntry name x
  record := by
    intro context other h id report
    have hrecords : context.records = other.records := by
      rw [records, records, h.get?_eq (Ne.symm hkey)]
    unfold record Context.set
    rw [hrecords]
    split
    · exact h.setEntry stepsKey _
    · exact (h.setEntry stepsKey _).setEntry id _

/-- Parameters that differ in one key make contexts that differ there only. -/
theorem apart_ofParameters (hkey : key ≠ stepsKey) (v w : Value) (params : Entries) :
    Apart key v w (ofParameters (Entries.set key v params))
      (ofParameters (Entries.set key w params)) := by
  have hsteps : ∀ x, Entries.get? stepsKey (Entries.set key x params) =
      Entries.get? stepsKey params := fun x => by rw [Entries.get?_set, if_neg hkey]
  unfold ofParameters
  rw [hsteps, hsteps]
  split
  · exact apart_set key v w params
  · exact (apart_set key v w params).setEntry stepsKey _

/-- Contexts that are apart agree on the other keys. -/
theorem Apart.agreeOn (h : Apart key v w context other) {names : List String}
    (hnames : key ∉ names) : Resolver.AgreeOn names context other := by
  intro name hname
  refine h.get?_eq ?_
  rintro rfl
  exact hnames hname

end Context

/-! ## resolvers -/

/-- What a text leads to depends on the values of its keys only. -/
def Resolver.ReadsOnly (resolver : Resolver) (readKeys : List Char → List String) : Prop :=
  ∀ text context other, AgreeOn (readKeys text) context other →
    resolver.resolve context text = resolver.resolve other text

namespace Engine

/-- The keys that the resolver of an engine reads for a text. -/
def readKeys : Engine → List Char → List String
  | .rich => Resolver.evaluateKeys
  | .basic => Resolver.lookUpKeys

/-- Either engine reads the keys that are listed for it, and no others. -/
theorem readsOnly_readKeys (engine : Engine) : engine.resolver.ReadsOnly engine.readKeys := by
  cases engine with
  | rich => exact fun _ _ _ h => Resolver.evaluate_congr h
  | basic => exact fun _ _ _ h => Resolver.lookUp_congr h

/-- A text mentions the keys that are read for it. -/
theorem mentions_of_mem_readKeys (engine : Engine) {text : List Char} {key : String}
    (h : key ∈ engine.readKeys text) : Mentions text key := by
  cases engine with
  | rich => exact Resolver.mentions_of_mem_evaluateKeys h
  | basic => exact Resolver.mentions_of_mem_lookUpKeys h

end Engine

/-! ## steps and runs -/

/-- The key is not read for any text that the step looks up in the context. -/
structure Step.Ignores (step : Step) (readKeys : List Char → List String) (key : String)
    (resolver : Resolver) (context : Context) : Prop where
  condition : ∀ e ∈ step.conditionLookUps resolver context, key ∉ readKeys e
  loop : ∀ e ∈ step.loopLookUps resolver context, key ∉ readKeys e
  args : ∀ e ∈ Template.entrySpans step.args, key ∉ readKeys e

instance (step : Step) (readKeys : List Char → List String) (key : String) (resolver : Resolver)
    (context : Context) : Decidable (step.Ignores readKeys key resolver context) :=
  decidable_of_iff
    ((∀ e ∈ step.conditionLookUps resolver context, key ∉ readKeys e) ∧
      (∀ e ∈ step.loopLookUps resolver context, key ∉ readKeys e) ∧
      ∀ e ∈ Template.entrySpans step.args, key ∉ readKeys e)
    ⟨fun ⟨a, b, c⟩ => ⟨a, b, c⟩, fun ⟨a, b, c⟩ => ⟨a, b, c⟩⟩

/-- What is to hold of a result, if there is one. -/
instance decidableOfOk {E A : Type} {P : A → Prop} [DecidablePred P] :
    (result : Except E A) → Decidable (∀ a, result = .ok a → P a)
  | .ok a => decidable_of_iff (P a) ⟨fun h b hb => Except.ok.inj hb ▸ h, fun h => h a rfl⟩
  | .error _ => .isTrue fun _ h => by contradiction

namespace Interpreter

variable (interpreter : Interpreter World) (readKeys : List Char → List String)

/-- Every step that the run comes to ignores the key there. -/
def Ignores (key : String) (raws : List Value) (context : Context) (world : World) : Prop :=
  ∀ before raw after step, raws = before ++ raw :: after → Step.ofValue raw = .ok step →
    (interpreter.runSteps before context world).ending = .done →
    step.Ignores readKeys key interpreter.resolver
      (interpreter.runSteps before context world).context

/-- No steps ignore every key. -/
theorem ignores_nil (key : String) (context : Context) (world : World) :
    interpreter.Ignores readKeys key [] context world := by
  intro before raw after step hraws
  simp at hraws

/-- The first step is met at once, and the others behind it. -/
theorem ignores_cons (key : String) (raw : Value) (raws : List Value) (context : Context)
    (world : World) :
    interpreter.Ignores readKeys key (raw :: raws) context world ↔
      (∀ step, Step.ofValue raw = .ok step →
        step.Ignores readKeys key interpreter.resolver context) ∧
        ((interpreter.runSteps [raw] context world).ending = .done →
          interpreter.Ignores readKeys key raws (interpreter.runSteps [raw] context world).context
            (interpreter.runSteps [raw] context world).world) := by
  have hrun : ∀ before, interpreter.runSteps (raw :: before) context world =
      (interpreter.runSteps [raw] context world).andThen (interpreter.runSteps before) :=
    fun before => interpreter.runSteps_append [raw] before context world
  constructor
  · refine fun h => ⟨fun step hstep => h [] raw raws step rfl hstep rfl, fun hdone => ?_⟩
    intro before raw' after step hraws hstep hending
    have hlater := h (raw :: before) raw' after step (by rw [hraws]; rfl) hstep
    rw [hrun before] at hlater
    simp only [Stage.andThen, hdone] at hlater
    exact hlater hending
  · rintro ⟨hfirst, hrest⟩ before raw' after step hraws hstep hending
    cases before with
    | nil =>
        obtain ⟨rfl, -⟩ := List.cons.inj hraws
        exact hfirst step hstep
    | cons raw'' before =>
        obtain ⟨rfl, hraws'⟩ := List.cons.inj hraws
        rw [hrun] at hending ⊢
        cases hdone : (interpreter.runSteps [raw] context world).ending with
        | done =>
            simp only [Stage.andThen, hdone] at hending ⊢
            exact hrest hdone before raw' after step hraws' hstep hending
        | cancelled | aborted => simp [Stage.andThen, hdone] at hending

/-- Whether steps ignore a key can be seen by running them. -/
instance decidableIgnores (key : String) :
    (raws : List Value) → (context : Context) → (world : World) →
      Decidable (interpreter.Ignores readKeys key raws context world)
  | [], context, world => .isTrue (interpreter.ignores_nil readKeys key context world)
  | raw :: raws, context, world =>
    let stage := interpreter.runSteps [raw] context world
    have := decidableIgnores key raws stage.context stage.world
    decidable_of_iff _ (interpreter.ignores_cons readKeys key raw raws context world).symm

variable {interpreter} {readKeys} {key : String} {v w : Value} {context other : Context}

/-- A step that ignores the key cannot tell two contexts apart. -/
theorem indistinct_of_ignores (hreads : interpreter.resolver.ReadsOnly readKeys) {step : Step}
    (h : Context.Apart key v w context other)
    (hstep : step.Ignores readKeys key interpreter.resolver context) :
    interpreter.Indistinct interpreter.resolver (Context.Apart key v w) step context other :=
  indistinct_of_lookUps
    (fun e he => hreads e context other (h.agreeOn (hstep.condition e he)))
    (fun e he => hreads e context other (h.agreeOn (hstep.loop e he)))
    (fun e he _ _ h' => hreads e _ _ (h'.agreeOn (hstep.args e he)))

/-- Steps that ignore the key run alike over contexts that differ there only. -/
theorem alike_of_ignores (hreads : interpreter.resolver.ReadsOnly readKeys)
    (hkey : key ≠ Context.stepsKey) (h : Context.Apart key v w context other) {raws : List Value}
    {world : World} (hignores : interpreter.Ignores readKeys key raws context world) :
    Stage.Alike (Context.Apart key v w) (interpreter.runSteps raws context world)
      (interpreter.runSteps raws other world) :=
  alike_runSteps interpreter interpreter.resolver (Context.kept_apart hkey v w) h
    fun before raw after step hraws hread hdone _ hother =>
      indistinct_of_ignores hreads hother (hignores before raw after step hraws hread hdone)

end Interpreter

/-! ## outcomes -/

/-- The outcomes tell the same, but for the value of a key among the parameters and in the final
context. -/
structure Outcome.Apart (key : String) (v w : Value) (params : Entries)
    (first second : Outcome) : Prop where
  success : first.success = second.success
  output : first.output = second.output
  trace : first.trace = second.trace
  failedStep : first.failedStep = second.failedStep
  params : first.params = Entries.set key v params ∧ second.params = Entries.set key w params
  context : Context.Apart key v w ⟨first.context⟩ ⟨second.context⟩

namespace Interpreter

variable {key : String}

/-- The outcomes then differ in the parameter only. -/
theorem apart_finish {v w : Value} (params : Entries) {first second : Stage World}
    (h : Stage.Alike (Context.Apart key v w) first second) :
    Outcome.Apart key v w params (finish (Entries.set key v params) first)
      (finish (Entries.set key w params) second) := by
  obtain ⟨context, world, trace, ending⟩ := first
  obtain ⟨other, world', trace', ending'⟩ := second
  obtain ⟨hcontext, rfl, rfl, rfl⟩ := h
  cases ending with
  | done | cancelled | aborted => exact ⟨rfl, rfl, rfl, rfl, ⟨rfl, rfl⟩, hcontext⟩

/-- **A parameter that no step reads has no influence on a run**, but for its own value in the
outcome. -/
theorem execute_apart (interpreter : Interpreter World)
    {readKeys : List Char → List String} (hreads : interpreter.resolver.ReadsOnly readKeys)
    (hkey : key ≠ Context.stepsKey) {document : Value} {params : Entries} {world : World}
    {v : Value} (w : Value)
    (hignores : interpreter.Ignores readKeys key (stepsOf document)
      (.ofParameters (Entries.set key v params)) world) :
    Outcome.Apart key v w params
        (interpreter.execute document (Entries.set key v params) world).1
        (interpreter.execute document (Entries.set key w params) world).1 ∧
      (interpreter.execute document (Entries.set key v params) world).2 =
        (interpreter.execute document (Entries.set key w params) world).2 := by
  have hstart := Context.apart_ofParameters hkey v w params
  unfold stepsOf at hignores
  unfold execute
  cases hsteps : Document.steps (some document) with
  | error defect => exact ⟨⟨rfl, rfl, rfl, rfl, ⟨rfl, rfl⟩, hstart⟩, rfl⟩
  | ok raws =>
      rw [hsteps] at hignores
      have halike := alike_of_ignores hreads hkey hstart hignores
      exact ⟨apart_finish params halike, halike.world⟩

end Interpreter

end Runbook

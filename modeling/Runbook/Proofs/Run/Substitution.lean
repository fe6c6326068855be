import Mathlib.Data.List.Forall2
import Runbook.Proofs.Run.History

/-!
# Runbook.Proofs.Run.Substitution

Runs with one registry in the place of another. A measure of the world that no capability of the
registry changes, and nobody else up to a look at the flag, is the same behind every run
(`execute_keeps`). So if the capabilities of two registries do the same in all worlds with one value
of that measure, a run from such a world never leaves these worlds, and it is the same run with
either registry (`execute_withRegistry`).
-/

namespace Runbook

variable {World Size : Type}

/-! ## registries -/

namespace Registry

/-- A capability that is found stands in the registry. -/
theorem mem_of_find? {name : String} {registry : Registry World} {capability : Capability World}
    (h : find? name registry = some capability) : (name, capability) ∈ registry := by
  induction registry with
  | nil => simp [find?] at h
  | cons entry rest ih =>
      obtain ⟨n, c⟩ := entry
      rw [find?] at h
      split at h
      · next hn =>
          obtain rfl := Option.some.inj h
          simp [hn]
      · exact List.mem_cons_of_mem _ (ih h)

/-- No capability of the registry changes the measure of the world. -/
def Keeps (registry : Registry World) (measure : World → Size) : Prop :=
  ∀ entry ∈ registry, ∀ args world, measure (entry.2.invoke args world).2 = measure world

/-- The registries have the same names in the same order, and under each of them capabilities that
do the same in all worlds with this value of the measure. -/
def AgreesAt (measure : World → Size) (size : Size) (registry other : Registry World) : Prop :=
  List.Forall₂ (fun entry entry' => entry.1 = entry'.1 ∧
    ∀ args world, measure world = size → entry.2.invoke args world = entry'.2.invoke args world)
    registry other

/-- Under a name there are two capabilities that agree, or none in either registry. -/
theorem AgreesAt.find? {measure : World → Size} {size : Size} {registry other : Registry World}
    (h : registry.AgreesAt measure size other) (name : String) :
    (Registry.find? name registry = none ∧ Registry.find? name other = none) ∨
    ∃ capability capability', Registry.find? name registry = some capability ∧
      Registry.find? name other = some capability' ∧ ∀ args world, measure world = size →
        capability.invoke args world = capability'.invoke args world := by
  induction h with
  | nil => exact .inl ⟨rfl, rfl⟩
  | @cons entry entry' rest rest' hentry hrest ih =>
      obtain ⟨n, c⟩ := entry
      obtain ⟨n', c'⟩ := entry'
      obtain ⟨rfl, hinvoke⟩ := hentry
      simp only [Registry.find?]
      split
      · exact .inr ⟨c, c', rfl, rfl, hinvoke⟩
      · exact ih

end Registry

/-- Invocations keep a measure that the capabilities keep. -/
theorem Replays.keeps {measure : World → Size} {registry : Registry World}
    {invocations : List Invocation} {before after : World}
    (h : Replays registry invocations before after) (hkeeps : registry.Keeps measure) :
    measure after = measure before := by
  induction invocations generalizing before with
  | nil => exact congrArg measure h
  | cons invocation rest ih =>
      obtain ⟨capability, hfind, -, hrest⟩ := h
      exact (ih hrest).trans (hkeeps _ (Registry.mem_of_find? hfind) _ before)

/-! ## attempts -/

section Attempts

variable {measure : World → Size} {capability capability' : Capability World}

/-- Attempts keep a measure that the capability keeps. -/
theorem attemptsFrom_keeps
    (hkeeps : ∀ args world, measure (capability.invoke args world).2 = measure world)
    (args : Entries) (base : Option Delay) (number retries : Nat) (world : World) :
    measure (attemptsFrom capability args base number retries world).world = measure world := by
  induction retries generalizing number world with
  | zero => exact hkeeps args world
  | succ retries ih =>
      rw [attemptsFrom]
      split
      · exact hkeeps args world
      · exact (ih (number + 1) _).trans (hkeeps args world)

/-- Capabilities that agree where a run is have the same attempts. -/
theorem attemptsFrom_congr {size : Size}
    (hkeeps : ∀ args world, measure (capability.invoke args world).2 = measure world)
    (hinvoke : ∀ args world, measure world = size →
      capability.invoke args world = capability'.invoke args world)
    (args : Entries) (base : Option Delay) (number retries : Nat) {world : World}
    (hworld : measure world = size) :
    attemptsFrom capability' args base number retries world =
      attemptsFrom capability args base number retries world := by
  induction retries generalizing number world with
  | zero => simp only [attemptsFrom, hinvoke args world hworld]
  | succ retries ih =>
      have hnext := ih (number + 1) ((hkeeps args world).trans hworld)
      rw [hinvoke args world hworld] at hnext
      simp only [attemptsFrom, hinvoke args world hworld, hnext]

end Attempts

/-! ## runs -/

namespace Stage

/-- The measure behind two parts in sequence. -/
theorem measure_andThen {measure : World → Size} {size : Size} {stage : Stage World}
    {next : Context → World → Stage World} (hstage : measure stage.world = size)
    (hnext : ∀ context world, measure world = size → measure (next context world).world = size) :
    measure (stage.andThen next).world = size := by
  unfold andThen
  split
  · exact hnext _ _ hstage
  · exact hstage

/-- Parts in sequence only look at where the first one ended. -/
theorem andThen_eq {stage : Stage World} {next other : Context → World → Stage World}
    (h : other stage.context stage.world = next stage.context stage.world) :
    stage.andThen other = stage.andThen next := by
  unfold andThen
  split
  · rw [h]
  · rfl

end Stage

namespace Interpreter

variable (interpreter : Interpreter World) {measure : World → Size}

/-- Closing a body does nothing to the world. -/
theorem world_settle (step : Step) (iteration : Option Nat) (report : Report) (attempts : Nat)
    (message : String) (context : Context) (world : World) :
    (settle step iteration report attempts message context world).world = world := by
  simp only [settle]
  split
  · rfl
  · split <;> rfl

/-- Nobody changes the measure of the world while a run goes on: neither the capabilities, nor
others up to a look at the flag. -/
structure Keeps (interpreter : Interpreter World) (measure : World → Size) : Prop where
  /-- Capabilities keep it. -/
  registry : interpreter.registry.Keeps measure
  /-- Others keep it. -/
  meanwhile : ∀ world, measure (interpreter.meanwhile world) = measure world

/-- Without a flag it is enough that the capabilities keep the measure. -/
theorem Keeps.of_registry {interpreter : Interpreter World}
    (hflag : interpreter.cancellation = none) (hkeeps : interpreter.registry.Keeps measure) :
    interpreter.Keeps measure :=
  ⟨hkeeps, fun world => by simp [Interpreter.meanwhile, hflag]⟩

section Keeps

variable (hkeeps : interpreter.Keeps measure)

include hkeeps

/-- A safe point keeps the measure if what is behind it does. -/
theorem atSafePoint_keeps {context : Context} {world : World} {next : World → Stage World}
    (hnext : ∀ found, measure (next found).world = measure found) :
    measure (interpreter.atSafePoint context world next).world = measure world := by
  rw [atSafePoint_eq]
  split
  · exact hkeeps.meanwhile world
  · exact (hnext _).trans (hkeeps.meanwhile world)

/-- Carrying a step out once keeps the measure. -/
theorem runBody_keeps (step : Step) (iteration : Option Nat) (context : Context) (world : World) :
    measure (interpreter.runBody step iteration context world).world = measure world := by
  unfold runBody
  split
  · rw [world_settle]
  · next tool capability hfound =>
      obtain ⟨name, -, hfound⟩ := Option.bind_eq_some_iff.mp hfound
      obtain ⟨found, hfind, hpair⟩ := Option.map_eq_some_iff.mp hfound
      obtain ⟨rfl, rfl⟩ := Prod.mk.inj hpair
      simp only [world_settle]
      exact attemptsFrom_keeps (hkeeps.registry _ (Registry.mem_of_find? hfind)) _ _ _ _ world

/-- A loop keeps the measure. -/
theorem runItems_keeps (step : Step) (place : Nat) (items : List Value) (context : Context)
    (world : World) :
    measure (interpreter.runItems step place items context world).world = measure world := by
  induction items generalizing place context world with
  | nil => rfl
  | cons item items ih =>
      rw [runItems]
      apply interpreter.atSafePoint_keeps hkeeps
      intro found
      apply Stage.measure_andThen (interpreter.runBody_keeps hkeeps step _ _ found)
      intro c w hw
      exact (ih (place + 1) c w).trans hw

/-- A step keeps the measure. -/
theorem runStep_keeps (step : Step) (context : Context) (world : World) :
    measure (interpreter.runStep step context world).world = measure world := by
  rw [runStep]
  split
  · split
    · exact interpreter.runItems_keeps hkeeps step 0 _ context world
    · exact interpreter.runBody_keeps hkeeps step none context world
  · rfl

/-- Steps keep the measure. -/
theorem runSteps_keeps (raws : List Value) (context : Context) (world : World) :
    measure (interpreter.runSteps raws context world).world = measure world := by
  induction raws generalizing context world with
  | nil => rfl
  | cons raw raws ih =>
      rw [runSteps]
      apply interpreter.atSafePoint_keeps hkeeps
      intro found
      split
      · rfl
      · apply Stage.measure_andThen (interpreter.runStep_keeps hkeeps _ context found)
        intro c w hw
        exact (ih c w).trans hw

/-- A run keeps a measure that nobody changes. -/
theorem execute_keeps (document : Value) (params : Entries) (world : World) :
    measure (interpreter.execute document params world).2 = measure world := by
  unfold execute
  split
  · rfl
  · exact interpreter.runSteps_keeps hkeeps _ _ world

end Keeps

/-- The interpreter with another registry. -/
def withRegistry (registry : Registry World) : Interpreter World :=
  { interpreter with registry := registry }

/-- The registry does not count for a safe point, as far as what is behind it agrees. -/
theorem atSafePoint_withRegistry (registry : Registry World) {context : Context} {world : World}
    {next other : World → Stage World}
    (h : other (interpreter.meanwhile world) = next (interpreter.meanwhile world)) :
    (interpreter.withRegistry registry).atSafePoint context world other =
      interpreter.atSafePoint context world next := by
  rw [atSafePoint_eq interpreter, ← h]
  rfl

section WithRegistry

variable {size : Size} {registry : Registry World}
  (hkeeps : interpreter.Keeps measure)
  (hagrees : interpreter.registry.AgreesAt measure size registry)

include hkeeps hagrees

/-- Carrying a step out once is the same with a registry that agrees. -/
theorem runBody_withRegistry (step : Step) (iteration : Option Nat) (context : Context)
    {world : World} (hworld : measure world = size) :
    (interpreter.withRegistry registry).runBody step iteration context world =
      interpreter.runBody step iteration context world := by
  have hdelay : (interpreter.withRegistry registry).delay? step = interpreter.delay? step := rfl
  have hresolver : (interpreter.withRegistry registry).resolver = interpreter.resolver := rfl
  have hregistry : (interpreter.withRegistry registry).registry = registry := rfl
  cases htool : step.tool with
  | none => simp only [runBody, htool, Option.bind_none]
  | some tool =>
      rcases hagrees.find? tool with ⟨hnone, hnone'⟩ | ⟨c, c', hfind, hfind', hinvoke⟩
      · simp only [runBody, htool, hregistry, hnone, hnone', Option.bind_some, Option.map_none]
      · have htries := attemptsFrom_congr (hkeeps.registry _ (Registry.mem_of_find? hfind)) hinvoke
          (Template.renderEntries interpreter.resolver context step.args)
          (interpreter.delay? step) 1 step.retries hworld
        simp only [runBody, htool, hdelay, hresolver, hregistry, hfind, hfind', Option.bind_some,
          Option.map_some, attempts, htries]

/-- A loop is the same with a registry that agrees. -/
theorem runItems_withRegistry (step : Step) (place : Nat) (items : List Value) (context : Context)
    {world : World} (hworld : measure world = size) :
    (interpreter.withRegistry registry).runItems step place items context world =
      interpreter.runItems step place items context world := by
  induction items generalizing place context world with
  | nil => rfl
  | cons item items ih =>
      have hfound := (hkeeps.meanwhile world).trans hworld
      have hbody := interpreter.runBody_withRegistry hkeeps hagrees step (some place)
        (context.set step.loopVariable item) hfound
      rw [runItems, runItems]
      apply interpreter.atSafePoint_withRegistry
      rw [hbody]
      apply Stage.andThen_eq
      exact ih (place + 1) _ ((interpreter.runBody_keeps hkeeps step _ _ _).trans hfound)

/-- A step is the same with a registry that agrees. -/
theorem runStep_withRegistry (step : Step) (context : Context) {world : World}
    (hworld : measure world = size) :
    (interpreter.withRegistry registry).runStep step context world =
      interpreter.runStep step context world := by
  have hholds : (interpreter.withRegistry registry).holds step context =
      interpreter.holds step context :=
    rfl
  have hitems : (interpreter.withRegistry registry).items? step context =
      interpreter.items? step context := rfl
  rw [runStep, runStep, hholds, hitems]
  split
  · split
    · exact interpreter.runItems_withRegistry hkeeps hagrees step 0 _ context hworld
    · exact interpreter.runBody_withRegistry hkeeps hagrees step none context hworld
  · rfl

/-- Steps are the same with a registry that agrees. -/
theorem runSteps_withRegistry (raws : List Value) (context : Context) {world : World}
    (hworld : measure world = size) :
    (interpreter.withRegistry registry).runSteps raws context world =
      interpreter.runSteps raws context world := by
  induction raws generalizing context world with
  | nil => rfl
  | cons raw raws ih =>
      have hfound := (hkeeps.meanwhile world).trans hworld
      rw [runSteps, runSteps]
      apply interpreter.atSafePoint_withRegistry
      cases Step.ofValue raw with
      | error misfit => rfl
      | ok step =>
          simp only [interpreter.runStep_withRegistry hkeeps hagrees step context hfound]
          apply Stage.andThen_eq
          exact ih _ ((interpreter.runStep_keeps hkeeps step context _).trans hfound)

/-- A run is the same with a registry that agrees with the first one wherever the run can come. -/
theorem execute_withRegistry (document : Value) (params : Entries) {world : World}
    (hworld : measure world = size) :
    (interpreter.withRegistry registry).execute document params world =
      interpreter.execute document params world := by
  unfold execute
  split
  · rfl
  · simp only [interpreter.runSteps_withRegistry hkeeps hagrees _ _ hworld]

end WithRegistry

end Interpreter

end Runbook

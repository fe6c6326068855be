import Runbook.Proofs.Run.Sequence
import Runbook.Proofs.Step.Loop
import Runbook.Proofs.Template.Rendering

/-!
# Runbook.Proofs.Run.LoopSplitting

A loop in two. A loop goes through its items one after the other, and nothing of it is kept outside
the context and the world: so a loop over two lists of items is the loop over the first and then the
loop over the second (`Interpreter.runItems_append`), and where its items are counted from makes no
difference but to the places in the logs (`Interpreter.runItems_later`). Two steps in a row, with
one of the lists each, therefore do what one step does, and only the places of the second part are
counted anew (`execute_split_loop`).

The two runs are told apart by their parts: what is in front of the loop, the loop over the first
list, the loop over the second, and what is behind it (`LoopParts`). Both runs have the logs of the
same four parts, one behind the other, only that one of them counts the third from where the second
ends.
-/

namespace Runbook

variable {World : Type}

/-! ## places -/

namespace Trace

/-- The logs with the places of items counted from `n` on. -/
def later (n : Nat) (t : Trace) : Trace where
  transcript := t.transcript
  visits := t.visits.map fun v => { v with iteration := v.iteration.map (n + ·) }
  invocations := t.invocations.map fun i => { i with iteration := i.iteration.map (n + ·) }

theorem later_append (n : Nat) (s t : Trace) : (s ++ t).later n = s.later n ++ t.later n := by
  simp [later, append_def]

end Trace

namespace Stage

/-- The part of a run with the places of items counted from `n` on. -/
def later (n : Nat) (stage : Stage World) : Stage World :=
  { stage with trace := stage.trace.later n }

/-- The visits of the part are of the step, for the items with the places 0, 1 and so on: for all of
`count` items if the part goes through, and for the first of them if it does not. -/
def CountsItems (id : String) (count : Nat) (stage : Stage World) : Prop :=
  ∃ n ≤ count, stage.trace.visits.map (fun v => (v.id, v.iteration)) =
      (List.range n).map (fun i => (id, some i)) ∧ (stage.ending = .done → n = count)

/-- Counting later passes to both stages in a row. -/
theorem later_andThen (n : Nat) (stage : Stage World) (next : Context → World → Stage World) :
    (stage.andThen next).later n = (stage.later n).andThen fun c w => (next c w).later n := by
  obtain ⟨context, world, trace, ending⟩ := stage
  cases ending with
  | done => simp [andThen, later, Trace.later_append]
  | cancelled => rfl
  | aborted id message => rfl

end Stage

namespace Interpreter

variable (interpreter : Interpreter World) (step : Step)

/-! ## loops -/

/-- Settling counts no iteration itself, it only notes the one it is given. -/
theorem settle_later (n k : Nat) (report : Report) (attempts : Nat) (message : String)
    (context : Context) (world : World) :
    settle step (some (n + k)) report attempts message context world =
      (settle step (some k) report attempts message context world).later n := by
  unfold settle
  split
  · rfl
  · split <;> rfl

/-- So does a body. -/
theorem runBody_later (n k : Nat) (context : Context) (world : World) :
    interpreter.runBody step (some (n + k)) context world =
      (interpreter.runBody step (some k) context world).later n := by
  unfold runBody
  split
  · exact settle_later step n k _ _ _ _ _
  · next tool capability _ =>
      simp only [settle_later step n k, Stage.later, Trace.later_append]
      simp [Trace.later, Function.comp_def]

/-- The places of the items do not count, except for the logs. -/
theorem runItems_later (n k : Nat) (items : List Value) (context : Context) (world : World) :
    interpreter.runItems step (n + k) items context world =
      (interpreter.runItems step k items context world).later n := by
  induction items generalizing k context world with
  | nil => rfl
  | cons item items ih =>
      rw [runItems, runItems, atSafePoint_eq, atSafePoint_eq]
      split
      · rfl
      · rw [Stage.later_andThen, runBody_later]
        congr 1
        funext c w
        exact ih (k + 1) c w

/-- The items of two lists are run one list behind the other, and the iterations go on. -/
theorem runItems_append (start : Nat) (first second : List Value) (context : Context)
    (world : World) :
    interpreter.runItems step start (first ++ second) context world =
      (interpreter.runItems step start first context world).andThen
        (interpreter.runItems step (start + first.length) second) := by
  induction first generalizing start context world with
  | nil => simp [runItems, Stage.still_andThen]
  | cons item first ih =>
      rw [List.cons_append, runItems, runItems, atSafePoint_eq, atSafePoint_eq]
      split
      · rfl
      · rw [Stage.andThen_assoc]
        congr 1
        funext c w
        rw [ih, List.length_cons, Nat.add_right_comm, Nat.add_assoc]

/-- The source of the loop does not count for its items. -/
theorem runItems_loop (loop : Option Value) (start : Nat) (items : List Value) (context : Context)
    (world : World) :
    interpreter.runItems { step with loop := loop } start items context world =
      interpreter.runItems step start items context world := by
  induction items generalizing start context world with
  | nil => rfl
  | cons item items ih =>
      rw [runItems, runItems, atSafePoint_eq, atSafePoint_eq]
      split
      · rfl
      · congr 1
        funext c w
        exact ih (start + 1) c w

/-- Settling notes one visit, with the iteration it is given. -/
theorem exists_visit_settle (iteration : Option Nat) (report : Report) (attempts : Nat)
    (message : String) (context : Context) (world : World) :
    ∃ disposition, (settle step iteration report attempts message context world).trace.visits =
      [⟨step.id, disposition, attempts, iteration⟩] := by
  unfold settle
  split
  · exact ⟨_, rfl⟩
  · split <;> exact ⟨_, rfl⟩

/-- So does a body. -/
theorem exists_visit_runBody (iteration : Option Nat) (context : Context) (world : World) :
    ∃ disposition attempts, (interpreter.runBody step iteration context world).trace.visits =
      [⟨step.id, disposition, attempts, iteration⟩] := by
  unfold runBody
  split
  · obtain ⟨disposition, hvisits⟩ := exists_visit_settle step iteration _ 0 _ context world
    exact ⟨disposition, 0, hvisits⟩
  · next tool capability _ =>
      extract_lets args tries trace settled
      obtain ⟨disposition, hvisits⟩ := exists_visit_settle step iteration tries.last
        tries.all.length ("step " ++ step.id ++ " failed: " ++ tries.last.outputText) context
        tries.world
      exact ⟨disposition, tries.all.length, hvisits⟩

/-- A loop visits its items in their order, all of them if it goes through. -/
theorem visits_runItems (start : Nat) (items : List Value) (context : Context) (world : World) :
    ∃ n ≤ items.length,
      (interpreter.runItems step start items context world).trace.visits.map
          (fun v => (v.id, v.iteration)) =
        (List.range' start n).map (fun i => (step.id, some i)) ∧
      ((interpreter.runItems step start items context world).ending = .done →
        n = items.length) := by
  induction items generalizing start context world with
  | nil => exact ⟨0, Nat.le_refl _, rfl, fun _ => rfl⟩
  | cons item items ih =>
      rw [runItems, atSafePoint_eq]
      split
      · exact ⟨0, Nat.zero_le _, rfl, fun h => by contradiction⟩
      · obtain ⟨disposition, attempts, hvisit⟩ := interpreter.exists_visit_runBody step (some start)
          (context.set step.loopVariable item) (interpreter.meanwhile world)
        generalize interpreter.runBody step (some start) (context.set step.loopVariable item)
          (interpreter.meanwhile world) = body at hvisit
        obtain ⟨context, world, trace, ending⟩ := body
        replace hvisit : trace.visits = [⟨step.id, disposition, attempts, some start⟩] := hvisit
        cases ending with
        | done =>
            obtain ⟨n, hn, hvisits, hdone⟩ := ih (start + 1) context world
            refine ⟨n + 1, by simpa using hn, ?_, fun h => by rw [hdone h, List.length_cons]⟩
            simp only [Stage.andThen, Trace.append_def, List.map_append, hvisits]
            simp [hvisit, List.range'_succ]
        | cancelled | aborted =>
            refine ⟨1, by simp, ?_, fun h => by contradiction⟩
            simp [Stage.andThen, hvisit]

/-- A step without a condition that loops over a list as it is written. -/
theorem runStep_literal {items : List Value} (hcondition : step.condition = none)
    (hloop : step.loop = some (.array items))
    (hplain : ∀ item ∈ items, ∀ s ∈ item.strings, Text.Undoubled '{' s.toList)
    (context : Context) (world : World) :
    interpreter.runStep step context world = interpreter.runItems step 0 items context world := by
  have hholds : interpreter.holds step context = true := by rw [holds, hcondition]
  have hitems : interpreter.items? step context = some items := by
    rw [items?, hloop]
    exact congrArg some (Template.renderItems_of_undoubled _ _ hplain)
  simp only [runStep, hholds, hitems, if_true]

end Interpreter

/-! ## parts of a run -/

namespace Stage

/-- What comes behind a part of a run: the next one, or nothing if the run does not get there. -/
def proceed (stage : Stage World) (next : Context → World → Stage World) : Stage World :=
  match stage.ending with
  | .done => next stage.context stage.world
  | _ => still stage.context stage.world stage.ending

/-- A part of a run with the logs of what was in front of it. -/
def behind (front : Trace) (stage : Stage World) : Stage World :=
  { stage with trace := front ++ stage.trace }

/-- Two parts in a row are the second one, with the logs of the first in front. -/
theorem andThen_eq_proceed (stage : Stage World) (next : Context → World → Stage World) :
    stage.andThen next = (stage.proceed next).behind stage.trace := by
  obtain ⟨context, world, trace, ending⟩ := stage
  cases ending with
  | done => rfl
  | cancelled | aborted => simp [andThen, proceed, behind, still, Trace.append_empty]

/-- The logs in front of a part do not count for what comes behind it. -/
theorem behind_andThen (front : Trace) (stage : Stage World)
    (next : Context → World → Stage World) :
    (stage.behind front).andThen next = (stage.andThen next).behind front := by
  obtain ⟨context, world, trace, ending⟩ := stage
  cases ending with
  | done => simp [andThen, behind, Trace.append_assoc]
  | cancelled | aborted => rfl

/-- The logs in front of a part, and those in front of them. -/
theorem behind_behind (front middle : Trace) (stage : Stage World) :
    (stage.behind middle).behind front = stage.behind (front ++ middle) := by
  simp [behind, Trace.append_assoc]

/-- Four parts in a row are the last one, with the logs of the other three in front. -/
theorem andThen_four (front : Stage World) (f g h : Context → World → Stage World) :
    (front.andThen fun c w => ((f c w).andThen g).andThen h) =
      (((front.proceed f).proceed g).proceed h).behind
        (front.trace ++ ((front.proceed f).trace ++ ((front.proceed f).proceed g).trace)) :=
  calc
    (front.andThen fun c w => ((f c w).andThen g).andThen h)
      = ((front.andThen f).andThen g).andThen h := by
        rw [andThen_assoc, andThen_assoc]
        simp only [andThen_assoc]
    _ = (((front.proceed f).andThen g).andThen h).behind front.trace := by
        rw [andThen_eq_proceed front f, behind_andThen, behind_andThen]
    _ = _ := by
        rw [andThen_eq_proceed _ g, behind_andThen, andThen_eq_proceed _ h, behind_behind,
          behind_behind, Trace.append_assoc]

/-- The next part with its places counted from `n` on, if the run gets there. -/
theorem proceed_later (n : Nat) (stage : Stage World) (next : Context → World → Stage World) :
    stage.proceed (fun c w => (next c w).later n) = (stage.proceed next).later n := by
  unfold proceed
  cases stage.ending <;> rfl

/-- A part that the run does not get to visits nothing. -/
theorem CountsItems.proceed {id : String} {count : Nat} {next : Context → World → Stage World}
    (h : ∀ c w, (next c w).CountsItems id count) (stage : Stage World) :
    (stage.proceed next).CountsItems id count := by
  unfold Stage.proceed
  cases stage.ending with
  | done => exact h _ _
  | cancelled | aborted => exact ⟨0, Nat.zero_le _, rfl, fun hdone => by contradiction⟩

end Stage

/-- The parts of a run with a loop that is in two. -/
structure LoopParts (World : Type) where
  /-- What is in front of the loop. -/
  front : Stage World
  /-- The items of the first list. -/
  first : Stage World
  /-- The items of the second list. -/
  second : Stage World
  /-- What is behind the loop. -/
  back : Stage World

namespace Interpreter

variable (interpreter : Interpreter World)

/-- The parts of a run that comes to a loop over two lists, behind the steps `before` and in front
of the steps `after`. The items of each list are counted from zero. -/
def loopParts (step : Step) (xs ys before after : List Value) (context : Context) (world : World) :
    LoopParts World :=
  let front := interpreter.runSteps before context world
  let first := front.proceed (interpreter.runItems step 0 xs)
  let second := first.proceed (interpreter.runItems step 0 ys)
  ⟨front, first, second, second.proceed (interpreter.runSteps after)⟩

/-- The items of a loop are counted from zero. -/
theorem countsItems_runItems (step : Step) (items : List Value) (context : Context)
    (world : World) :
    (interpreter.runItems step 0 items context world).CountsItems step.id items.length := by
  obtain ⟨n, hn, hvisits, hdone⟩ := interpreter.visits_runItems step 0 items context world
  rw [← List.range_eq_range'] at hvisits
  exact ⟨n, hn, hvisits, hdone⟩

/-- Without a flag there is nothing to look at. -/
theorem atSafePoint_of_none (hflag : interpreter.cancellation = none) (context : Context)
    (world : World) (next : World → Stage World) :
    interpreter.atSafePoint context world next = next world := by
  simp [atSafePoint_eq, meanwhile, isCancelled, hflag]

/-- A run without a flag that comes to a loop over a list as it is written. -/
theorem runSteps_literal (hflag : interpreter.cancellation = none) {raw : Value}
    {step : Step} (hread : Step.ofValue raw = .ok step) (hcondition : step.condition = none)
    {items : List Value} (hloop : step.loop = some (.array items))
    (hplain : ∀ item ∈ items, ∀ s ∈ item.strings, Text.Undoubled '{' s.toList)
    (rest : List Value) (context : Context) (world : World) :
    interpreter.runSteps (raw :: rest) context world =
      (interpreter.runItems step 0 items context world).andThen (interpreter.runSteps rest) := by
  rw [runSteps, interpreter.atSafePoint_of_none hflag, hread]
  simp only
  rw [interpreter.runStep_literal step hcondition hloop hplain]

section Split

variable (hflag : interpreter.cancellation = none) {raw : Value} {step : Step}
  (hread : Step.ofValue raw = .ok step) (hcondition : step.condition = none)
  {xs ys : List Value} (hloop : step.loop = some (.array (xs ++ ys)))
  (hplain : ∀ item ∈ xs ++ ys, ∀ s ∈ item.strings, Text.Undoubled '{' s.toList)
  (before after : List Value) (context : Context) (world : World)
include hflag hread hcondition hloop hplain

/-- The run with the loop in one, part by part: the second list is counted from the end of the first
one. -/
theorem runSteps_whole {parts : LoopParts World}
    (hparts : parts = interpreter.loopParts step xs ys before after context world) :
    interpreter.runSteps (before ++ raw :: after) context world =
      parts.back.behind (parts.front.trace ++ (parts.first.trace ++
        parts.second.trace.later xs.length)) := by
  have hwhole : interpreter.runSteps (raw :: after) = fun c w =>
      ((interpreter.runItems step 0 xs c w).andThen fun c w =>
        (interpreter.runItems step 0 ys c w).later xs.length).andThen
          (interpreter.runSteps after) := by
    funext c w
    rw [interpreter.runSteps_literal hflag hread hcondition hloop hplain, runItems_append,
      Nat.add_comm]
    congr 2
    funext c w
    exact interpreter.runItems_later step xs.length 0 ys c w
  subst hparts
  rw [runSteps_append, hwhole, Stage.andThen_four, Stage.proceed_later]
  rfl

/-- The run with the loop in two, part by part: each list is counted from zero. -/
theorem runSteps_split {parts : LoopParts World}
    (hparts : parts = interpreter.loopParts step xs ys before after context world) :
    interpreter.runSteps (before ++ Step.withLoop raw xs :: Step.withLoop raw ys :: after) context
        world =
      parts.back.behind (parts.front.trace ++ (parts.first.trace ++ parts.second.trace)) := by
  have hread' := Step.ofValue_withLoop hread (by rw [hloop]; rfl)
  rw [List.forall_mem_append] at hplain
  have hfirst := interpreter.runSteps_literal hflag (hread' xs) hcondition rfl hplain.1
  have hsecond := interpreter.runSteps_literal hflag (hread' ys) hcondition rfl hplain.2
  simp only [runItems_loop] at hfirst hsecond
  have hsplit : interpreter.runSteps (Step.withLoop raw xs :: Step.withLoop raw ys :: after) =
      fun c w => ((interpreter.runItems step 0 xs c w).andThen
        (interpreter.runItems step 0 ys)).andThen (interpreter.runSteps after) := by
    funext c w
    rw [hfirst, Stage.andThen_assoc]
    congr 1
    funext c w
    exact hsecond after c w
  subst hparts
  rw [runSteps_append, hsplit, Stage.andThen_four]
  rfl

end Split

end Interpreter

/-! ## whole runs -/

/-- The outcome of a run with a loop of `n + m` items, and that of the run with the loop in two.
They are the same but for the visits and the places in the logs: the logs of both are those of the
same parts, and only the places of the second part are counted from its own beginning in one of
them, and from the end of the first part in the other. -/
structure Outcome.SplitsLoop (parts : LoopParts World) (id : String) (n m : Nat)
    (whole split : Outcome) : Prop where
  success : split.success = whole.success
  output : split.output = whole.output
  failedStep : split.failedStep = whole.failedStep
  params : split.params = whole.params
  context : split.context = whole.context
  transcript : split.trace.transcript = whole.trace.transcript
  /-- The invocations have the same arguments and results. -/
  invocations : split.trace.invocations.map (fun i => { i with iteration := none }) =
    whole.trace.invocations.map (fun i => { i with iteration := none })
  /-- The first list is counted from zero. -/
  first_counts : parts.first.CountsItems id n
  /-- So is the second. -/
  second_counts : parts.second.CountsItems id m
  /-- With the loop in one, the second list is counted on. -/
  whole_eq : whole.trace = parts.front.trace ++
    (parts.first.trace ++ parts.second.trace.later n) ++ parts.back.trace
  /-- With the loop in two, it is not. -/
  split_eq : split.trace = parts.front.trace ++
    (parts.first.trace ++ parts.second.trace) ++ parts.back.trace

/-- The outcomes of two runs that end with the same part, and differ in front of it only in where
the second list is counted from. -/
theorem Stage.splitsLoop_finish {parts : LoopParts World} {id : String} {n m : Nat}
    {whole split : Stage World} (hfirst : parts.first.CountsItems id n)
    (hsecond : parts.second.CountsItems id m)
    (hwhole : whole = parts.back.behind
      (parts.front.trace ++ (parts.first.trace ++ parts.second.trace.later n)))
    (hsplit : split = parts.back.behind
      (parts.front.trace ++ (parts.first.trace ++ parts.second.trace)))
    (params : Entries) :
    Outcome.SplitsLoop parts id n m (Interpreter.finish params whole)
      (Interpreter.finish params split) := by
  have htrace (stage : Stage World) : (Interpreter.finish params stage).trace = stage.trace := by
    unfold Interpreter.finish
    cases stage.ending <;> rfl
  have hfinish : Interpreter.finish params split =
      { Interpreter.finish params whole with trace := split.trace } := by
    rw [hwhole, hsplit]
    unfold Interpreter.finish behind
    cases parts.back.ending <;> rfl
  have hwhole_eq : (Interpreter.finish params whole).trace = parts.front.trace ++
      (parts.first.trace ++ parts.second.trace.later n) ++ parts.back.trace := by
    rw [htrace, hwhole]
    rfl
  have hsplit_eq : split.trace = parts.front.trace ++
      (parts.first.trace ++ parts.second.trace) ++ parts.back.trace := by
    rw [hsplit]
    rfl
  rw [hfinish]
  refine ⟨rfl, rfl, rfl, rfl, rfl, ?_, ?_, hfirst, hsecond, hwhole_eq, hsplit_eq⟩
  · rw [hwhole_eq, hsplit_eq]
    simp [Trace.append_def, Trace.later]
  · rw [hwhole_eq, hsplit_eq]
    simp [Trace.append_def, Trace.later, Function.comp_def]

/-- **A loop can be split.** In a run without a flag, a step without a condition that loops over a
list of items without spans can be written twice, once for each part of the list. The world, the
transcript, the invocations, what the run says of itself and the context it leaves behind are the
same, and so are the visits, but that the items of the second part are counted anew. Nothing is
asked of the capability: iterations may fail, be tried again, be tolerated, or end the run. -/
theorem execute_split_loop (interpreter : Interpreter World)
    (hflag : interpreter.cancellation = none) {raw : Value} {step : Step}
    (hread : Step.ofValue raw = .ok step) (hcondition : step.condition = none)
    {xs ys : List Value} (hloop : step.loop = some (.array (xs ++ ys)))
    (hplain : ∀ item ∈ xs ++ ys, ∀ s ∈ item.strings, Text.Undoubled '{' s.toList)
    {before after : List Value} {document document' : Value}
    (hsteps : Document.steps (some document) = .ok (before ++ raw :: after))
    (hsteps' : Document.steps (some document') =
      .ok (before ++ Step.withLoop raw xs :: Step.withLoop raw ys :: after))
    (params : Entries) (world : World) :
    (interpreter.execute document' params world).2 =
      (interpreter.execute document params world).2 ∧
    Outcome.SplitsLoop
      (interpreter.loopParts step xs ys before after (.ofParameters params) world) step.id
      xs.length ys.length (interpreter.execute document params world).1
      (interpreter.execute document' params world).1 := by
  generalize hparts :
    interpreter.loopParts step xs ys before after (.ofParameters params) world = parts
  have hwhole := interpreter.runSteps_whole hflag hread hcondition hloop hplain before after _ _
    hparts.symm
  have hsplit := interpreter.runSteps_split hflag hread hcondition hloop hplain before after _ _
    hparts.symm
  have hfirst : parts.first.CountsItems step.id xs.length := by
    rw [← hparts]
    exact .proceed (interpreter.countsItems_runItems step xs) _
  have hsecond : parts.second.CountsItems step.id ys.length := by
    rw [← hparts]
    exact .proceed (interpreter.countsItems_runItems step ys) _
  rw [interpreter.execute_of_steps hsteps, interpreter.execute_of_steps hsteps']
  refine ⟨?_, Stage.splitsLoop_finish hfirst hsecond hwhole hsplit params⟩
  rw [hwhole, hsplit]
  rfl

/-! ### a capability that fails now and then -/

/-- A capability that counts its invocations and fails at every third one. -/
def faltering : Capability Nat :=
  ⟨"", fun _ count => (.ok ⟨.ofNat count, count % 3 ≠ 0, none⟩, count + 1)⟩

/-- An interpreter with this capability and without a flag; its world is the count. -/
def counter : Interpreter Nat := ⟨[("count", faltering)], Resolver.basic, none, none⟩

/-- A step that invokes the capability for three items, and lets it fail. -/
def countThree : Value :=
  .object [("id", .string "three"), ("tool", .string "count"),
    ("args", .object [("for", .string "\x7b\x7b item \x7d\x7d")]),
    ("loop", .array [.string "a", .string "b", .string "c"]), ("allow_failure", .bool true)]

/-- A step that tries the capability twice. -/
def countTwice : Value := .object [("tool", .string "count"), ("retries", .ofNat 1)]

/-- The step with three items between two other steps. -/
def countAll : Value := Document.ofSteps [countTwice, countThree, countTwice]

/-- The same with the loop in two, behind its first item. -/
def countAllSplit : Value :=
  Document.ofSteps [countTwice, Step.withLoop countThree [.string "a"],
    Step.withLoop countThree [.string "b", .string "c"], countTwice]

/-- The disposition, the attempts and the place of each visit. -/
def visitsOf (document : Value) : List (Disposition × Nat × Option Nat) :=
  (counter.execute document [] 0).1.trace.visits.map
    fun v => (v.disposition, v.attempts, v.iteration)

theorem execute_split_loop_counter :
    visitsOf countAll = [(.succeeded, 2, none), (.succeeded, 1, some 0), (.tolerated, 1, some 1),
        (.succeeded, 1, some 2), (.succeeded, 1, none)] ∧
      visitsOf countAllSplit = [(.succeeded, 2, none), (.succeeded, 1, some 0),
        (.tolerated, 1, some 0), (.succeeded, 1, some 1), (.succeeded, 1, none)] ∧
      (counter.execute countAllSplit [] 0).2 = (counter.execute countAll [] 0).2 ∧
      (counter.execute countAllSplit [] 0).1.context = (counter.execute countAll [] 0).1.context ∧
      (counter.execute countAllSplit [] 0).1.trace.transcript =
        (counter.execute countAll [] 0).1.trace.transcript := by
  obtain ⟨step, hread, hcondition, hloop⟩ : ∃ step, Step.ofValue countThree = .ok step ∧
      step.condition = none ∧
      step.loop = some (.array ([.string "a"] ++ [.string "b", .string "c"])) :=
    ⟨_, rfl, rfl, rfl⟩
  have hsteps : Document.steps (some countAll) =
      .ok ([countTwice] ++ countThree :: [countTwice]) := rfl
  have hsteps' : Document.steps (some countAllSplit) =
      .ok ([countTwice] ++ Step.withLoop countThree [.string "a"] ::
        Step.withLoop countThree [.string "b", .string "c"] :: [countTwice]) := rfl
  obtain ⟨hworld, hsplits⟩ := execute_split_loop counter rfl hread hcondition hloop
    (by decide) hsteps hsteps' [] 0
  exact ⟨by decide +kernel, by decide +kernel, hworld, hsplits.context, hsplits.transcript⟩

end Runbook

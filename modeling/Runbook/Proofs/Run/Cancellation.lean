import Runbook.Proofs.Run.Outcome

/-!
# Runbook.Proofs.Run.Cancellation

What a cancelled run still does. The flag is looked at before each step and each item of a loop, and
nowhere else: a run that finds it set at one of these points does nothing more
(`Itinerary.of_cancelled`), and a body that is being carried out is finished, with all its retries.

So if a capability sets the flag, and nobody takes it back, the body that invoked it is the last one
of the run (`Interpreter.LastBody`). A run that has nothing left to do behind this body, or that the
body ends, comes out as it would if its flag were never set (`execute_uninterrupted`); any other is
cancelled.
-/

namespace Runbook

variable {World : Type}

/-! ## flags that stay set -/

/-- The flag of a run stays set: no capability takes it back, and neither do others up to the next
look. -/
structure Interpreter.StaysCancelled (interpreter : Interpreter World) : Prop where
  /-- Capabilities keep the flag set. -/
  invoke : ∀ tool capability, Registry.find? tool interpreter.registry = some capability →
    ∀ args world, interpreter.isCancelled world = true →
      interpreter.isCancelled (capability.invoke args world).2 = true
  /-- Others keep it set. -/
  meanwhile : ∀ world, interpreter.isCancelled world = true →
    interpreter.isCancelled (interpreter.meanwhile world) = true

/-- A flag that stays set is set behind all further invocations. -/
theorem Replays.isCancelled {interpreter : Interpreter World} (hstays : interpreter.StaysCancelled)
    {invocations : List Invocation} {before after : World}
    (h : Replays interpreter.registry invocations before after)
    (hset : interpreter.isCancelled before = true) : interpreter.isCancelled after = true := by
  induction invocations generalizing before with
  | nil => exact h ▸ hset
  | cons invocation rest ih =>
      obtain ⟨capability, hfind, -, hrest⟩ := h
      exact ih hrest (hstays.invoke _ capability hfind _ before hset)

/-! ## bodies in a run -/

section Bodies

variable {interpreter : Interpreter World} {context context' : Context} {before after : World}
  {ending : Ending} {past future : List (Event World)} {body : Body World}

/-- An element of two lists in a row is in the first one or in the second. -/
theorem exists_part {α : Type} {first second front back : List α} {x : α}
    (h : first ++ second = front ++ x :: back) :
    (∃ rest, first = front ++ x :: rest ∧ back = rest ++ second) ∨
      ∃ rest, front = first ++ rest ∧ second = rest ++ x :: back := by
  rcases List.append_eq_append_iff.mp h with ⟨rest, hfront, hsecond⟩ | ⟨rest, hfirst, hback⟩
  · exact .inr ⟨rest, hfront, hsecond⟩
  · cases rest with
    | nil => exact .inr ⟨[], by simp [hfirst], hback.symm⟩
    | cons y rest =>
        obtain ⟨rfl, hrest⟩ := List.cons.inj hback
        exact .inl ⟨rest, hfirst, hrest⟩

/-- An invocation of a history was made for a body. -/
theorem History.exists_body {history : List (Event World)} {earlier later : List Invocation}
    {invocation : Invocation}
    (h : history.flatMap Event.invocations = earlier ++ invocation :: later) :
    ∃ past body future tried rest, history = past ++ .carriedOut body :: future ∧
      body.invocations = tried ++ invocation :: rest ∧
      earlier = past.flatMap Event.invocations ++ tried ∧
      later = rest ++ future.flatMap Event.invocations := by
  induction history generalizing earlier with
  | nil => simp at h
  | cons event history ih =>
      rw [List.flatMap_cons] at h
      rcases exists_part h with ⟨rest, hevent, hlater⟩ | ⟨made, hearlier, hrest⟩
      · cases event with
        | refused | skipped => simp [Event.invocations] at hevent
        | carriedOut body => exact ⟨[], body, history, earlier, rest, rfl, hevent, rfl, hlater⟩
      · obtain ⟨past, body, future, tried, rest, rfl, hbody, rfl, hlater⟩ := ih hrest
        refine ⟨event :: past, body, future, tried, rest, rfl, hbody, ?_, hlater⟩
        rw [hearlier, List.flatMap_cons, List.append_assoc]

/-- A body of a run ran in the context that the events before it left behind, and from a world in
which the flag was not set. Unless it ended the run, the run went on behind it. -/
theorem History.Leads.at_body {tasks : List Task}
    (h : Leads interpreter tasks (past ++ .carriedOut body :: future) context before context' after
      ending) :
    interpreter.isCancelled body.start = false ∧ ∃ finished,
      body.Runs interpreter (leave past context) body.start finished ∧
      ((∃ todo, Leads interpreter todo future (body.leave (leave past context)) finished context'
          after ending) ∨
        future = [] ∧ after = finished ∧ ∃ message, ending = .aborted body.step.id message) := by
  generalize hhistory : past ++ .carriedOut body :: future = history at h
  induction h generalizing past with
  | done | cancelled => simp at hhistory
  | opened hgoing hread hholds hitems leads ih => exact ih hhistory
  | next hgoing happens hgoes leads ih =>
      cases past with
      | nil =>
          obtain ⟨rfl, rfl⟩ := List.cons.inj hhistory
          have hruns := happens.runs
          rw [hruns.start_eq]
          exact ⟨hgoing, _, hruns, .inl ⟨_, leads⟩⟩
      | cons event past =>
          obtain ⟨rfl, hrest⟩ := List.cons.inj hhistory
          exact ih hrest
  | ended hgoing happens hends =>
      cases past with
      | nil =>
          obtain ⟨rfl, rfl⟩ := List.cons.inj hhistory
          have hruns := happens.runs
          rw [hruns.start_eq]
          exact ⟨hgoing, _, hruns, .inr ⟨rfl, rfl, _, rfl⟩⟩
      | cons event past => simp at hhistory

/-- A run whose flag is set behind a body has nothing more behind it: the body is the last event of
the last passage, and the run is done, or ended by the body, or cancelled by its next look. -/
theorem Itinerary.at_body {raws : List Value} {passages : List (Passage World)}
    (h : Itinerary interpreter raws passages context before context' after ending)
    (hevents : passages.flatMap Passage.events = past ++ .carriedOut body :: future) :
    interpreter.isCancelled body.start = false ∧ ∃ finished,
      body.Runs interpreter (History.leave past context) body.start finished ∧
      (interpreter.isCancelled (interpreter.meanwhile finished) = true → future = [] ∧
        (∃ earlier last events, passages = earlier ++ [last] ∧
          last.events = events ++ [.carriedOut body] ∧
          past = earlier.flatMap Passage.events ++ events) ∧
        (after = finished ∨ after = interpreter.meanwhile finished)) := by
  induction h generalizing past with
  | done | cancelled => simp at hevents
  | @stopped raw raws events context context' before after ending hgoing leads hstops =>
      rw [List.flatMap_singleton] at hevents
      obtain rfl : events = _ := hevents
      obtain ⟨hstart, finished, hruns, hbehind⟩ := leads.at_body
      refine ⟨hstart, finished, hruns, fun hset => ?_⟩
      rcases hbehind with ⟨todo, hrest⟩ | ⟨rfl, rfl, -⟩
      · obtain ⟨rfl, -, hend⟩ := hrest.of_cancelled hset
        exact ⟨rfl, ⟨[], _, past, rfl, rfl, rfl⟩, hend.imp And.right And.right⟩
      · exact ⟨rfl, ⟨[], _, past, rfl, rfl, rfl⟩, .inl rfl⟩
  | @next raw raws events passages context middle context' before world after ending hgoing leads
      itinerary ih =>
      rw [List.flatMap_cons] at hevents
      rcases exists_part hevents with ⟨rest, rfl, rfl⟩ | ⟨made, rfl, hrest⟩
      · -- the run is done with the value of the body, and comes to no further one
        obtain ⟨hstart, finished, hruns, hbehind⟩ := leads.at_body
        refine ⟨hstart, finished, hruns, fun hset => ?_⟩
        rcases hbehind with ⟨todo, hrest⟩ | ⟨-, -, message, hending⟩
        · obtain ⟨rfl, -, ⟨-, rfl⟩ | ⟨hending, -⟩⟩ := hrest.of_cancelled hset
          · obtain ⟨rfl, hend⟩ := itinerary.of_cancelled hset
            exact ⟨rfl, ⟨[], _, past, rfl, rfl, rfl⟩, hend⟩
          · contradiction
        · contradiction
      · -- the body belongs to a later value
        obtain ⟨hstart, finished, hruns, hbehind⟩ := ih hrest
        rw [leads.context_eq, ← History.leave_append] at hruns
        refine ⟨hstart, finished, hruns, fun hset => ?_⟩
        obtain ⟨hfuture, ⟨earlier, last, front, rfl, hlast, rfl⟩, hend⟩ := hbehind hset
        refine ⟨hfuture, ⟨⟨raw, context, events⟩ :: earlier, last, front, rfl, hlast, ?_⟩, hend⟩
        rw [List.flatMap_cons, List.append_assoc]

end Bodies

/-! ## runs whose flag is never set -/

namespace Stage

variable {stage : Stage World} {next other : Context → World → Stage World}

/-- A part that is the first of two was not cancelled if both together were not. -/
theorem ending_ne_cancelled (h : (stage.andThen next).ending ≠ .cancelled) :
    stage.ending ≠ .cancelled := by
  intro hcancelled
  simp [andThen, hcancelled] at h

/-- Parts in sequence that are not cancelled are the same for every second part that agrees where it
is not cancelled. -/
theorem andThen_congr (h : (stage.andThen next).ending ≠ .cancelled)
    (hnext : ∀ c w, (next c w).ending ≠ .cancelled → other c w = next c w) :
    stage.andThen other = stage.andThen next := by
  unfold andThen at h ⊢
  cases hending : stage.ending with
  | done =>
      simp only [hending] at h ⊢
      rw [hnext _ _ h]
  | cancelled | aborted => rfl

end Stage

namespace Interpreter

variable (interpreter : Interpreter World)

/-- The interpreter with a flag that is never set. Others may do what they do. -/
def uninterrupted : Interpreter World :=
  { interpreter with
    cancellation := interpreter.cancellation.map fun flag => { flag with isSet := fun _ => false } }

/-- A safe point of the interpreter whose flag is never set. -/
theorem atSafePoint_uninterrupted (context : Context) (world : World)
    (next : World → Stage World) :
    interpreter.uninterrupted.atSafePoint context world next =
      next (interpreter.meanwhile world) := by
  unfold atSafePoint uninterrupted isCancelled Interpreter.meanwhile
  cases interpreter.cancellation <;> rfl

/-- What a safe point lets through is not cancelled there. -/
theorem atSafePoint_of_ne_cancelled {context : Context} {world : World}
    {next : World → Stage World}
    (h : (interpreter.atSafePoint context world next).ending ≠ .cancelled) :
    interpreter.atSafePoint context world next = next (interpreter.meanwhile world) := by
  rw [atSafePoint_eq] at h ⊢
  split at h
  · simp [Stage.still] at h
  · next hgoing => rw [if_neg hgoing]

/-- A loop that is not cancelled is the loop with a flag that is never set. -/
theorem runItems_uninterrupted {step : Step} {place : Nat} {items : List Value}
    {context : Context} {world : World}
    (h : (interpreter.runItems step place items context world).ending ≠ .cancelled) :
    interpreter.uninterrupted.runItems step place items context world =
      interpreter.runItems step place items context world := by
  induction items generalizing place context world with
  | nil => rfl
  | cons item items ih =>
      rw [runItems] at h ⊢
      rw [runItems, atSafePoint_uninterrupted]
      have hpassed := interpreter.atSafePoint_of_ne_cancelled h
      rw [hpassed] at h ⊢
      exact Stage.andThen_congr h fun c w => ih

/-- A step that is not cancelled is the step with a flag that is never set. -/
theorem runStep_uninterrupted {step : Step} {context : Context} {world : World}
    (h : (interpreter.runStep step context world).ending ≠ .cancelled) :
    interpreter.uninterrupted.runStep step context world =
      interpreter.runStep step context world := by
  have hholds : interpreter.uninterrupted.holds step context = interpreter.holds step context := rfl
  have hitems : interpreter.uninterrupted.items? step context = interpreter.items? step context :=
    rfl
  rw [runStep] at h ⊢
  rw [runStep, hholds, hitems]
  split at h
  · next hcarried =>
      rw [if_pos hcarried, if_pos hcarried]
      cases hloop : interpreter.items? step context with
      | none => rfl
      | some items =>
          rw [hloop] at h
          exact interpreter.runItems_uninterrupted h
  · next hskipped => rw [if_neg hskipped, if_neg hskipped]

/-- Steps that are not cancelled are the steps with a flag that is never set. -/
theorem runSteps_uninterrupted {raws : List Value} {context : Context} {world : World}
    (h : (interpreter.runSteps raws context world).ending ≠ .cancelled) :
    interpreter.uninterrupted.runSteps raws context world =
      interpreter.runSteps raws context world := by
  induction raws generalizing context world with
  | nil => rfl
  | cons raw raws ih =>
      rw [runSteps] at h ⊢
      rw [runSteps, atSafePoint_uninterrupted]
      have hpassed := interpreter.atSafePoint_of_ne_cancelled h
      rw [hpassed] at h ⊢
      cases hread : Step.ofValue raw with
      | error misfit => rfl
      | ok step =>
          simp only [hread] at h ⊢
          rw [interpreter.runStep_uninterrupted (Stage.ending_ne_cancelled h)]
          exact Stage.andThen_congr h fun c w => ih

/-- A run that is not cancelled is the run with a flag that is never set. -/
theorem execute_uninterrupted {document : Value} {params : Entries} {world : World}
    (h : ¬(interpreter.execute document params world).1.IsOf document .cancelled) :
    interpreter.execute document params world =
      interpreter.uninterrupted.execute document params world := by
  cases hsteps : Document.steps (some document) with
  | error defect => simp [execute, hsteps]
  | ok raws =>
      obtain ⟨history, hexplains⟩ :=
        interpreter.exists_explains_runSteps raws (.ofParameters params) world
      have hkind := interpreter.isOf_finish hexplains document params
      rw [interpreter.execute_of_steps hsteps] at h ⊢
      rw [interpreter.uninterrupted.execute_of_steps hsteps, interpreter.runSteps_uninterrupted]
      intro hcancelled
      rw [hcancelled] at hkind
      exact h hkind

end Interpreter

/-! ## runs that are cancelled on their way -/

/-- The body is the last thing that a run did: at the last value that the run came to, in this
context, and from a world in which the flag was not set. -/
structure Interpreter.LastBody (interpreter : Interpreter World) (document : Value)
    (params : Entries) (world : World) (passages : List (Passage World)) (context : Context)
    (body : Body World) : Prop where
  /-- The passages account for the run. -/
  account : Account interpreter document params world passages
  /-- The body is the last event of the last of them. -/
  position : ∃ earlier last events, passages = earlier ++ [last] ∧
    last.events = events ++ [.carriedOut body] ∧
    context = History.leave (earlier.flatMap Passage.events ++ events) (.ofParameters params)
  /-- The flag was not set before. -/
  going : interpreter.isCancelled body.start = false
  /-- The body ran as any other one, and behind it the run looked at the flag once at most. -/
  runs : ∃ finished, body.Runs interpreter context body.start finished ∧
    ((interpreter.execute document params world).2 = finished ∨
      (interpreter.execute document params world).2 = interpreter.meanwhile finished)
  /-- It left its context behind, with its report committed unless it ended the run. -/
  context_eq : (interpreter.execute document params world).1.context = (body.leave context).entries

/-- Where a run made an invocation: for this body, between these worlds. The lists are all the
invocations before and behind it. -/
structure Interpreter.MadeFor (interpreter : Interpreter World) (document : Value)
    (params : Entries) (world : World) (passages : List (Passage World)) (body : Body World)
    (earlier : List Invocation) (invocation : Invocation) (later : List Invocation)
    (before after : World) : Prop where
  /-- The passages account for the run. -/
  account : Account interpreter document params world passages
  /-- The body is one of their events; the invocation comes behind others that were tried for the
  body, and these lead from where the body started to the world before. -/
  position : ∃ past future tried rest,
    passages.flatMap Passage.events = past ++ .carriedOut body :: future ∧
    body.invocations = tried ++ invocation :: rest ∧
    earlier = past.flatMap Event.invocations ++ tried ∧
    later = rest ++ future.flatMap Event.invocations ∧
    Replays interpreter.registry tried body.start before
  /-- The invocation leads from the one world to the other. -/
  made : Replays interpreter.registry [invocation] before after

namespace Interpreter

variable {interpreter : Interpreter World} {document : Value} {params : Entries} {world : World}

/-- Every invocation of a run was made for a body. -/
theorem exists_madeFor {earlier later : List Invocation} {invocation : Invocation}
    (h : (interpreter.execute document params world).1.trace.invocations =
      earlier ++ invocation :: later) :
    ∃ passages body before after,
      interpreter.MadeFor document params world passages body earlier invocation later before
        after := by
  obtain ⟨passages, haccount⟩ := interpreter.exists_account document params world
  obtain ⟨context, ending, hitinerary, -⟩ := haccount.itinerary
  rw [haccount.trace_eq] at h
  obtain ⟨past, body, future, tried, rest, hevents, hbody, hearlier, hlater⟩ :=
    History.exists_body h
  obtain ⟨-, finished, hruns, -⟩ := hitinerary.at_body hevents
  have hreplays := hruns.replays
  rw [hbody, ← hruns.start_eq, List.append_cons] at hreplays
  obtain ⟨after, hmade, -⟩ := hreplays.split
  obtain ⟨before, htried, hmade⟩ := hmade.split
  exact ⟨passages, body, before, after, haccount,
    ⟨past, future, tried, rest, hevents, hbody, hearlier, hlater, htried⟩, hmade⟩

/-- If a flag that stays set is set behind an invocation, the body of the invocation is the last one
of the run, and all later invocations are the body's own. -/
theorem MadeFor.lastBody (hstays : interpreter.StaysCancelled)
    {passages : List (Passage World)} {body : Body World} {earlier later : List Invocation}
    {invocation : Invocation} {before after : World}
    (h : interpreter.MadeFor document params world passages body earlier invocation later before
      after) (hset : interpreter.isCancelled after = true) :
    (∃ context, interpreter.LastBody document params world passages context body) ∧
      ∃ tried, body.invocations = tried ++ invocation :: later := by
  obtain ⟨haccount, ⟨past, future, tried, rest, hevents, hbody, hearlier, hlater, htried⟩, hmade⟩ :=
    h
  obtain ⟨context, ending, hitinerary, hcontext⟩ := haccount.itinerary
  obtain ⟨hstart, finished, hruns, hbehind⟩ := hitinerary.at_body hevents
  have hfinished : interpreter.isCancelled finished = true := by
    have hreplays := hruns.replays
    rw [hbody, List.append_cons] at hreplays
    obtain ⟨world', hfirst, hrest⟩ := hreplays.split
    obtain rfl := hfirst.unique (htried.append hmade)
    exact hrest.isCancelled hstays hset
  obtain ⟨rfl, ⟨front, last, events, rfl, hlast, hpast⟩, hend⟩ :=
    hbehind (hstays.meanwhile _ hfinished)
  refine ⟨⟨_, haccount, ⟨front, last, events, rfl, hlast, by rw [hpast]⟩, hstart,
    ⟨finished, hruns, hend⟩, ?_⟩, tried, ?_⟩
  · rw [hcontext, hitinerary.context_eq, hevents, History.leave_append]
    rfl
  · rw [hbody, hlater, List.flatMap_nil, List.append_nil]

/-- How a run comes out whose flag was set by its last body: aborted by the body, or completed if
nothing was left to do, and cancelled otherwise. -/
theorem LastBody.isOf {passages : List (Passage World)} {context : Context} {body : Body World}
    (h : interpreter.LastBody document params world passages context body) :
    (body.disposition = .fatal →
      (interpreter.execute document params world).1.IsOf document .aborted) ∧
    (body.disposition ≠ .fatal → Exhausts interpreter (stepsOf document) passages →
      (interpreter.execute document params world).1.IsOf document .completed) ∧
    (body.disposition ≠ .fatal → ¬Exhausts interpreter (stepsOf document) passages →
      (interpreter.execute document params world).1.IsOf document .cancelled) := by
  obtain ⟨earlier, last, events, rfl, hevents, -⟩ := h.position
  have hvisits : (interpreter.execute document params world).1.trace.visits =
      (earlier.flatMap Passage.events ++ events).map Event.visit ++ [body.visit] := by
    rw [h.account.trace_eq]
    simp [History.trace, hevents, Event.visit]
  have hbody : body.visit ∈ (interpreter.execute document params world).1.trace.visits := by
    rw [hvisits]
    simp
  obtain ⟨kind, hkind⟩ := interpreter.exists_kind document params world
  -- the kind of the outcome is told by the last visit, which is that of the body
  cases kind with
  | rejected =>
      rw [hkind.2.2.2] at hbody
      exact absurd hbody List.not_mem_nil
  | completed =>
      have hgoes : body.disposition ≠ .fatal := hkind.2.2.2 _ hbody
      exact ⟨fun hfatal => absurd hfatal hgoes, fun _ _ => hkind,
        fun _ hleft => absurd (h.account.exhausts hkind.1) hleft⟩
  | aborted =>
      have haborted := hkind
      obtain ⟨-, before, fatal, hlist, -, hfatal, -⟩ := hkind
      obtain ⟨-, hlast⟩ := List.append_inj' (hvisits.symm.trans hlist) rfl
      obtain rfl := (List.cons.inj hlast).1
      exact ⟨fun _ => haborted, fun hgoes => absurd hfatal hgoes, fun hgoes => absurd hfatal hgoes⟩
  | cancelled =>
      have hgoes : body.disposition ≠ .fatal := hkind.2.2.2 _ hbody
      exact ⟨fun hfatal => absurd hfatal hgoes,
        fun _ hall => absurd hall (h.account.not_exhausts hkind), fun _ _ => hkind⟩

end Interpreter

/-- **Cancelling a run.** Let the flag be one that stays set, whoever sets it.

If it is set before a workflow with steps is run, nothing is invoked and the run is cancelled at its
first look.

Each invocation was made for a body, from one world to another. If the flag is set behind it, all
later invocations belong to the same body, which is the last one of the run and leaves its context
behind as usual. The run is aborted if the body failed and is not allowed to, completed if it was
the last body of the last step, and cancelled otherwise; in the first two cases it is the run with a
flag that is never set. -/
theorem execute_of_cancelled (interpreter : Interpreter World)
    (hstays : interpreter.StaysCancelled) (document : Value) (params : Entries) (world : World) :
    (∀ raw raws, Document.steps (some document) = .ok (raw :: raws) →
      interpreter.isCancelled world = true → interpreter.execute document params world =
        (⟨false, .string Outcome.cancelledText, .empty, params,
          (Context.ofParameters params).entries, none⟩, interpreter.meanwhile world)) ∧
    ∀ earlier invocation later,
      (interpreter.execute document params world).1.trace.invocations =
        earlier ++ invocation :: later →
      ∃ passages body before after,
        interpreter.MadeFor document params world passages body earlier invocation later before
          after ∧
        (interpreter.isCancelled after = true →
          (∃ context, interpreter.LastBody document params world passages context body) ∧
          (∃ tried, body.invocations = tried ++ invocation :: later) ∧
          (body.disposition = .fatal →
            (interpreter.execute document params world).1.IsOf document .aborted) ∧
          (body.disposition ≠ .fatal →
            Exhausts interpreter (Interpreter.stepsOf document) passages →
            (interpreter.execute document params world).1.IsOf document .completed) ∧
          (body.disposition ≠ .fatal →
            ¬Exhausts interpreter (Interpreter.stepsOf document) passages →
            (interpreter.execute document params world).1.IsOf document .cancelled) ∧
          (body.disposition = .fatal ∨
            Exhausts interpreter (Interpreter.stepsOf document) passages →
            interpreter.execute document params world =
              interpreter.uninterrupted.execute document params world)) := by
  constructor
  · intro raw raws hsteps hset
    have hfound := hstays.meanwhile world hset
    simp [interpreter.execute_of_steps hsteps, Interpreter.runSteps, Interpreter.atSafePoint_eq,
      hfound, Stage.still, Interpreter.finish]
  · intro earlier invocation later hlist
    obtain ⟨passages, body, before, after, hmade⟩ := Interpreter.exists_madeFor hlist
    refine ⟨passages, body, before, after, hmade, fun hset => ?_⟩
    obtain ⟨⟨context, hbody⟩, hlater⟩ := hmade.lastBody hstays hset
    obtain ⟨haborted, hcompleted, hcancelled⟩ := hbody.isOf
    refine ⟨⟨context, hbody⟩, hlater, haborted, hcompleted, hcancelled, fun hordinary => ?_⟩
    apply interpreter.execute_uninterrupted
    intro hkind
    by_cases hfatal : body.disposition = .fatal
    · exact absurd (hkind.unique (haborted hfatal)) (by decide)
    · exact hbody.account.not_exhausts hkind (hordinary.resolve_left hfatal)

/-! ### a capability that cancels its own run -/

/-- A capability that sets the flag. -/
def stopping : Capability Bool := ⟨"", fun _ _ => (.ok ⟨.null, true, none⟩, true)⟩

/-- An interpreter with this capability; its world is the flag. -/
def stoppable : Interpreter Bool := ⟨[("stop", stopping)], Resolver.basic, some ⟨id, id⟩, none⟩

/-- A document that sets the flag twice, unless it is stopped. -/
def stopTwice : Value :=
  .object [("steps", .array
    [.object [("tool", .string "stop")], .object [("tool", .string "stop")]])]

/-- The first invocation of this document. -/
def stopCall : Invocation := ⟨"unknown", none, "stop", [], ⟨.ok ⟨.null, true, none⟩, ⟨0, 0⟩⟩⟩

/-- The flag that this capability sets stays set. -/
theorem stoppable_staysCancelled : stoppable.StaysCancelled where
  invoke tool capability hfind args world _ := by
    have hstopping : capability = stopping := by
      unfold stoppable Registry.find? at hfind
      split at hfind
      · exact (Option.some.inj hfind).symm
      · simp [Registry.find?] at hfind
    rw [hstopping]
    rfl
  meanwhile _ hset := hset

/-- A flag that is set before the run stops it at once, and one that the first step sets stops it
behind the step. -/
theorem execute_of_cancelled_stopTwice :
    stoppable.execute stopTwice [] true =
      (⟨false, .string Outcome.cancelledText, .empty, [], (Context.ofParameters []).entries, none⟩,
        true) ∧
    (stoppable.execute stopTwice [] false).1.trace.invocations = [stopCall] ∧
    (stoppable.execute stopTwice [] false).1.IsOf stopTwice .cancelled := by
  have hlist : (stoppable.execute stopTwice [] false).1.trace.invocations =
      [] ++ stopCall :: [] := rfl
  have hfound : Registry.find? "stop" stoppable.registry = some stopping := rfl
  have hfailed : (stoppable.execute stopTwice [] false).1.failedStep = none := rfl
  have hsuccess : (stoppable.execute stopTwice [] false).1.success = false := rfl
  refine ⟨(execute_of_cancelled stoppable stoppable_staysCancelled stopTwice [] true).1 _ _ rfl rfl,
    hlist, ?_⟩
  obtain ⟨passages, body, before, after, hmade, hbehind⟩ :=
    (execute_of_cancelled stoppable stoppable_staysCancelled stopTwice [] false).2 [] stopCall []
      hlist
  -- the one invocation sets the flag
  have hset : stoppable.isCancelled after = true := by
    obtain ⟨capability, hfind, -, rfl⟩ := hmade.made
    obtain rfl := Option.some.inj (hfound.symm.trans hfind)
    rfl
  obtain ⟨-, -, haborted, hcompleted, hcancelled, -⟩ := hbehind hset
  have hgoes : body.disposition ≠ .fatal := by
    intro hfatal
    obtain ⟨-, earlier, last, -, hstep, -⟩ := haborted hfatal
    rw [hfailed] at hstep
    contradiction
  refine hcancelled hgoes fun hall => ?_
  have hdone := (hcompleted hgoes hall).1
  rw [hsuccess] at hdone
  contradiction

end Runbook

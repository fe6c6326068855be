import Runbook.Proofs.Run.Bindings
import Runbook.Proofs.Run.Transcript

/-!
# Runbook.Proofs.Run.Itinerary

The run of a document, value by value. A passage is what a run did at one value (`Passage`): one
visit, or the visits of a loop, counted from zero (`Passage.Ordered`). The passages of a run are an
itinerary (`Itinerary`): they belong to the first values of the document, in its order, and each
starts where the one before ended. All but the last go through their value to its end, and a run
that was not stopped leaves nothing out (`Exhausts`).

Histories list the events of a run without regard to the values. They are cut at the values
(`History.Leads.split`), and what holds at one value is read off there.
-/

namespace Runbook

variable {World : Type}

/-! ## cutting a history -/

namespace History

variable {interpreter : Interpreter World} {tasks todo : List Task} {history : List (Event World)}
  {context context' : Context} {before after : World} {ending : Ending}

/-- A run of tasks either does the first part of them and then the rest, or it stops in the first
part. -/
theorem Leads.split (tasks : List Task)
    (h : Leads interpreter (tasks ++ todo) history context before context' after ending) :
    (∃ first second middle world, history = first ++ second ∧
      Leads interpreter tasks first context before middle world .done ∧
      Leads interpreter todo second middle world context' after ending) ∨
    (ending ≠ .done ∧ Leads interpreter tasks history context before context' after ending) := by
  generalize hall : tasks ++ todo = all at h
  induction h generalizing tasks with
  | done =>
      obtain ⟨rfl, rfl⟩ := List.append_eq_nil_iff.mp hall
      exact .inl ⟨[], [], _, _, rfl, .done, .done⟩
  | cancelled hcancelled =>
      -- the cut stands in front of this task, or behind it; with no task left in the first part the
      -- run at hand is all of the second one
      cases tasks with
      | nil =>
          obtain rfl := hall
          exact .inl ⟨[], [], _, _, rfl, .done, .cancelled hcancelled⟩
      | cons task tasks =>
          obtain ⟨rfl, rfl⟩ := List.cons.inj hall
          exact .inr ⟨by simp, .cancelled hcancelled⟩
  | opened hgoing hread hholds hitems leads ih =>
      cases tasks with
      | nil =>
          obtain rfl := hall
          exact .inl ⟨[], _, _, _, rfl, .done, .opened hgoing hread hholds hitems leads⟩
      | cons task tasks =>
          obtain ⟨rfl, rfl⟩ := List.cons.inj hall
          rcases ih _ (List.append_assoc ..) with
            ⟨first, second, middle, world, hcut, h₁, h₂⟩ | ⟨hne, h⟩
          · exact .inl ⟨first, second, middle, world, hcut,
              .opened hgoing hread hholds hitems h₁, h₂⟩
          · exact .inr ⟨hne, .opened hgoing hread hholds hitems h⟩
  | next hgoing happens hgoes leads ih =>
      cases tasks with
      | nil =>
          obtain rfl := hall
          exact .inl ⟨[], _, _, _, rfl, .done, .next hgoing happens hgoes leads⟩
      | cons task tasks =>
          obtain ⟨rfl, rfl⟩ := List.cons.inj hall
          rcases ih _ rfl with ⟨first, second, middle, world, rfl, h₁, h₂⟩ | ⟨hne, h⟩
          · exact .inl ⟨_ :: first, second, middle, world, rfl, .next hgoing happens hgoes h₁, h₂⟩
          · exact .inr ⟨hne, .next hgoing happens hgoes h⟩
  | ended hgoing happens hends =>
      cases tasks with
      | nil =>
          obtain rfl := hall
          exact .inl ⟨[], _, _, _, rfl, .done, .ended hgoing happens hends⟩
      | cons task tasks =>
          obtain ⟨rfl, rfl⟩ := List.cons.inj hall
          exact .inr ⟨by simp, .ended hgoing happens hends⟩

/-- A run that finds its flag set at its next look does nothing more. If there is something left to
do it is cancelled by this look, and else it is done without it. -/
theorem Leads.of_cancelled
    (h : Leads interpreter tasks history context before context' after ending)
    (hcancelled : interpreter.isCancelled (interpreter.meanwhile before) = true) :
    history = [] ∧ context' = context ∧
      (ending = .done ∧ after = before ∨
        ending = .cancelled ∧ after = interpreter.meanwhile before) := by
  cases h with
  | done => exact ⟨rfl, rfl, .inl ⟨rfl, rfl⟩⟩
  | cancelled => exact ⟨rfl, rfl, .inr ⟨rfl, rfl⟩⟩
  | opened hgoing | next hgoing | ended hgoing =>
      rw [hcancelled] at hgoing
      contradiction

/-! ## how a history ends -/

/-- Unless a run is aborted, none of its events ends it. -/
theorem Leads.endsRun_eq_false
    (h : Leads interpreter tasks history context before context' after ending)
    (hending : ∀ id message, ending ≠ .aborted id message) :
    ∀ event ∈ history, event.endsRun = false := by
  induction h with
  | done | cancelled => simp
  | opened hgoing hread hholds hitems leads ih => exact ih hending
  | next hgoing happens hgoes leads ih =>
      rw [List.forall_mem_cons]
      exact ⟨hgoes, ih hending⟩
  | ended => exact absurd rfl (hending _ _)

/-- A run that is aborted ends with the one event that ends runs. -/
theorem Leads.exists_last {id message : String}
    (h : Leads interpreter tasks history context before context' after (.aborted id message)) :
    ∃ earlier last, history = earlier ++ [last] ∧ last.visit.id = id ∧ last.endsRun = true ∧
      ∀ event ∈ earlier, event.endsRun = false := by
  generalize hending : Ending.aborted id message = how at h
  induction h with
  | done | cancelled => contradiction
  | opened hgoing hread hholds hitems leads ih => exact ih hending
  | @next task todo event rest context context' before middle after ending hgoing happens hgoes
      leads ih =>
      obtain ⟨earlier, last, rfl, hid, hlast, hearlier⟩ := ih hending
      refine ⟨event :: earlier, last, rfl, hid, hlast, ?_⟩
      rw [List.forall_mem_cons]
      exact ⟨hgoes, hearlier⟩
  | @ended task todo event context before after message' hgoing happens hends =>
      obtain ⟨rfl, rfl⟩ := Ending.aborted.inj hending
      exact ⟨[], event, rfl, rfl, hends, by simp⟩

/-! ## loops -/

/-- The visits of a loop are counted from its first place on, one for each item, and only a run that
stops leaves items out. -/
theorem Leads.loop {raw : Value} {place : Nat} {items : List Value}
    (h : Leads interpreter (loopTasks raw place items) history context before context' after
      ending) :
    (history.map fun event => event.visit.iteration) =
        (List.range' place history.length).map some ∧
      history.length ≤ items.length ∧ (ending = .done → history.length = items.length) ∧
      (ending = .cancelled → history.length < items.length) := by
  induction items generalizing place history context before with
  | nil =>
      cases h
      simp
  | cons item items ih =>
      cases h with
      | cancelled hcancelled => simp
      | next hgoing happens hgoes leads =>
          obtain ⟨hplaces, hle, hdone, hcancelled⟩ := ih leads
          cases happens with
          | item hread hitem hruns =>
              refine ⟨?_, by simpa using hle, by simpa using hdone, by simpa using hcancelled⟩
              rw [List.map_cons, hplaces, List.length_cons, List.range'_succ, List.map_cons]
              simp [Event.visit, Body.visit, hitem]
      | ended hgoing happens hends =>
          cases happens with
          | item hread hitem hruns => simp [Event.visit, Body.visit, hitem]

end History

/-! ## passages -/

/-- The items that a run goes through at a value: those of a step that is carried out in a loop. -/
def Interpreter.itemsAt? (interpreter : Interpreter World) (raw : Value) (context : Context) :
    Option (List Value) :=
  match Step.ofValue raw with
  | .error _ => none
  | .ok step => if interpreter.holds step context then interpreter.items? step context else none

/-- What a run did at one value of its document. -/
structure Passage (World : Type) where
  /-- The value. -/
  raw : Value
  /-- The context in which the run came to it. -/
  context : Context
  /-- What happened there. -/
  events : List (Event World)

namespace Passage

variable (interpreter : Interpreter World) (passage : Passage World)

/-- The visits of the value. -/
def visits : List Visit := passage.events.map Event.visit

/-- The visits of a value are in order: a single one that is no iteration, or, for a loop, one for
each of the first items, counted from zero. -/
structure Ordered : Prop where
  /-- Each visit and its invocations belong to the value. -/
  regular : ∀ event ∈ passage.events, event.block.Regular interpreter passage.raw
  /-- Without a loop there is one visit. -/
  single : interpreter.itemsAt? passage.raw passage.context = none →
    ∃ visit, passage.visits = [visit] ∧ visit.iteration = none
  /-- In a loop the visits are counted, and there are no more of them than items. -/
  counted : ∀ items, interpreter.itemsAt? passage.raw passage.context = some items →
    passage.visits.map Visit.iteration = (List.range passage.visits.length).map some ∧
      passage.visits.length ≤ items.length

/-- The run went through the value to its end: a loop has a visit for each item. -/
def Complete : Prop :=
  ∀ items, interpreter.itemsAt? passage.raw passage.context = some items →
    passage.visits.length = items.length

end Passage

/-- The passages go through all values, and through each of them to its end. -/
def Exhausts (interpreter : Interpreter World) (raws : List Value)
    (passages : List (Passage World)) : Prop :=
  passages.map Passage.raw = raws ∧ ∀ passage ∈ passages, passage.Complete interpreter

section OneValue

variable {interpreter : Interpreter World} {raw : Value} {context context' : Context}
  {before after : World}

/-- An event that happens at a value, and at none of its items, is no iteration. -/
theorem Event.Happens.itemsAt?_eq_none {event : Event World}
    (happens : event.Happens interpreter (.value raw) context before after) :
    interpreter.itemsAt? raw context = none ∧ event.visit.iteration = none := by
  cases happens with
  | refused hread => simp [Interpreter.itemsAt?, hread, Event.visit]
  | skipped hread hholds => simp [Interpreter.itemsAt?, hread, hholds, Event.visit]
  | once hread hholds hitems hitem hruns =>
      simp [Interpreter.itemsAt?, hread, hholds, hitems, hitem, Event.visit, Body.visit]

/-- An event that happens at a value, and at none of its items, is a passage of its own. -/
theorem Event.Happens.passage {event : Event World}
    (happens : event.Happens interpreter (.value raw) context before after) :
    Passage.Ordered interpreter ⟨raw, context, [event]⟩ ∧
      Passage.Complete interpreter ⟨raw, context, [event]⟩ := by
  obtain ⟨hnone, hiteration⟩ := happens.itemsAt?_eq_none
  have hloop : ∀ items, interpreter.itemsAt? raw context ≠ some items := by simp [hnone]
  refine ⟨⟨?_, fun _ => ⟨event.visit, rfl, hiteration⟩, ?_⟩, ?_⟩
  · rw [List.forall_mem_singleton]
    exact happens.regular
  · exact fun items hitems => absurd hitems (hloop items)
  · exact fun items hitems => absurd hitems (hloop items)

/-- What happens in a loop is a passage, and it is complete if there is a visit for each item. -/
theorem History.Leads.loop_passage {step : Step} {items : List Value} {history : List (Event World)}
    {ending : Ending} (hread : Step.ofValue raw = .ok step)
    (hholds : interpreter.holds step context = true)
    (hitems : interpreter.items? step context = some items)
    (h : Leads interpreter (loopTasks raw 0 items) history context before context' after ending) :
    Passage.Ordered interpreter ⟨raw, context, history⟩ ∧
      (Passage.Complete interpreter ⟨raw, context, history⟩ ↔ history.length = items.length) := by
  obtain ⟨hplaces, hle, -⟩ := h.loop
  have hitemsAt : interpreter.itemsAt? raw context = some items := by
    simp [Interpreter.itemsAt?, hread, hholds, hitems]
  have hlength : (Passage.visits ⟨raw, context, history⟩).length = history.length :=
    List.length_map _
  refine ⟨⟨?_, ?_, ?_⟩, ?_⟩
  · intro event hevent
    obtain ⟨task, htask, hregular⟩ := h.regular event hevent
    rwa [History.raw_of_mem_loopTasks htask] at hregular
  · intro hnone
    rw [hitemsAt] at hnone
    contradiction
  · intro items' hitems'
    obtain rfl := Option.some.inj (hitemsAt.symm.trans hitems')
    rw [hlength, List.range_eq_range', ← hplaces]
    exact ⟨List.map_map, hle⟩
  · constructor
    · intro hcomplete
      rw [← hlength]
      exact hcomplete items hitemsAt
    · intro hall items' hitems'
      obtain rfl := Option.some.inj (hitemsAt.symm.trans hitems')
      rw [hlength, hall]

/-- What happens at one value that the run comes to is a passage in order. It is complete if the run
goes on, and not if it is cancelled there. -/
theorem History.Leads.passage {history : List (Event World)} {ending : Ending}
    (hgoing : interpreter.isCancelled (interpreter.meanwhile before) = false)
    (h : Leads interpreter [.value raw] history context before context' after ending) :
    Passage.Ordered interpreter ⟨raw, context, history⟩ ∧
      (ending = .done → Passage.Complete interpreter ⟨raw, context, history⟩) ∧
      (ending = .cancelled → ¬Passage.Complete interpreter ⟨raw, context, history⟩) := by
  cases h with
  | cancelled hcancelled =>
      rw [hgoing] at hcancelled
      contradiction
  | opened _ hread hholds hitems leads =>
      rw [List.append_nil] at leads
      obtain ⟨hordered, hcomplete⟩ := leads.loop_passage hread hholds hitems
      obtain ⟨-, -, hdone, hcancelled⟩ := leads.loop
      rw [hcomplete]
      exact ⟨hordered, hdone, fun hending => Nat.ne_of_lt (hcancelled hending)⟩
  | next _ happens hgoes leads =>
      cases leads with
      | done => exact ⟨happens.passage.1, fun _ => happens.passage.2, by simp⟩
  | ended _ happens hends => exact ⟨happens.passage.1, by simp, by simp⟩

end OneValue

/-! ## itineraries -/

/-- The run of some values, passage by passage. It comes to a value only if the look in front of it
does not find the flag set, and to the next one only if it is done with this one. -/
inductive Itinerary (interpreter : Interpreter World) :
    List Value → List (Passage World) → Context → World → Context → World → Ending → Prop where
  | done {context : Context} {world : World} :
      Itinerary interpreter [] [] context world context world .done
  | cancelled {raw : Value} {raws : List Value} {context : Context} {world : World}
      (hcancelled : interpreter.isCancelled (interpreter.meanwhile world) = true) :
      Itinerary interpreter (raw :: raws) [] context world context (interpreter.meanwhile world)
        .cancelled
  | stopped {raw : Value} {raws : List Value} {events : List (Event World)}
      {context context' : Context} {before after : World} {ending : Ending}
      (hgoing : interpreter.isCancelled (interpreter.meanwhile before) = false)
      (leads : History.Leads interpreter [.value raw] events context before context' after ending)
      (hstops : ending ≠ .done) :
      Itinerary interpreter (raw :: raws) [⟨raw, context, events⟩] context before context' after
        ending
  | next {raw : Value} {raws : List Value} {events : List (Event World)}
      {passages : List (Passage World)} {context middle context' : Context}
      {before world after : World} {ending : Ending}
      (hgoing : interpreter.isCancelled (interpreter.meanwhile before) = false)
      (leads : History.Leads interpreter [.value raw] events context before middle world .done)
      (itinerary : Itinerary interpreter raws passages middle world context' after ending) :
      Itinerary interpreter (raw :: raws) (⟨raw, context, events⟩ :: passages) context before
        context' after ending

namespace Itinerary

variable {interpreter : Interpreter World} {raws : List Value} {passages : List (Passage World)}
  {context context' : Context} {before after : World} {ending : Ending}

/-- Every history of a run of values can be cut into passages. -/
theorem exists_of_leads {history : List (Event World)}
    (h : History.Leads interpreter (raws.map .value) history context before context' after ending) :
    ∃ passages, Itinerary interpreter raws passages context before context' after ending ∧
      history = passages.flatMap Passage.events := by
  induction raws generalizing history context before with
  | nil =>
      cases h
      exact ⟨[], .done, rfl⟩
  | cons raw raws ih =>
      by_cases hcancelled : interpreter.isCancelled (interpreter.meanwhile before) = true
      · cases h with
        | cancelled => exact ⟨[], .cancelled hcancelled, rfl⟩
        | opened hgoing | next hgoing | ended hgoing =>
            rw [hcancelled] at hgoing
            contradiction
      · have hgoing : interpreter.isCancelled (interpreter.meanwhile before) = false := by
          simpa using hcancelled
        rcases History.Leads.split [.value raw] h with
          ⟨first, second, middle, world, rfl, hfirst, hsecond⟩ | ⟨hstops, hfirst⟩
        · obtain ⟨passages, hitinerary, rfl⟩ := ih hsecond
          exact ⟨⟨raw, context, first⟩ :: passages, .next hgoing hfirst hitinerary, rfl⟩
        · exact ⟨[⟨raw, context, history⟩], .stopped hgoing hfirst hstops, by simp⟩

/-- A run that finds its flag set at its next look comes to no further value. -/
theorem of_cancelled
    (h : Itinerary interpreter raws passages context before context' after ending)
    (hcancelled : interpreter.isCancelled (interpreter.meanwhile before) = true) :
    passages = [] ∧ (after = before ∨ after = interpreter.meanwhile before) := by
  cases h with
  | done => exact ⟨rfl, .inl rfl⟩
  | cancelled => exact ⟨rfl, .inr rfl⟩
  | stopped hgoing | next hgoing =>
      rw [hcancelled] at hgoing
      contradiction

/-- The itinerary leads to the context that its events leave behind. -/
theorem context_eq (h : Itinerary interpreter raws passages context before context' after ending) :
    context' = History.leave (passages.flatMap Passage.events) context := by
  induction h with
  | done | cancelled => rfl
  | stopped hgoing leads hstops => simpa using leads.context_eq
  | next hgoing leads itinerary ih =>
      rw [ih, leads.context_eq, List.flatMap_cons, History.leave_append]

/-- The passages belong to the first values. -/
theorem raws_eq (h : Itinerary interpreter raws passages context before context' after ending) :
    passages.map Passage.raw <+: raws := by
  induction h with
  | done | cancelled => exact List.nil_prefix
  | stopped => exact ⟨_, rfl⟩
  | next hgoing leads itinerary ih => exact (List.prefix_cons_inj _).mpr ih

/-- The passages are in order. -/
theorem ordered (h : Itinerary interpreter raws passages context before context' after ending) :
    ∀ passage ∈ passages, passage.Ordered interpreter := by
  induction h with
  | done | cancelled => simp
  | stopped hgoing leads hstops =>
      rw [List.forall_mem_singleton]
      exact (leads.passage hgoing).1
  | next hgoing leads itinerary ih =>
      rw [List.forall_mem_cons]
      exact ⟨(leads.passage hgoing).1, ih⟩

/-- A run leaves a value only when it has gone through it to its end. -/
theorem complete_of_mem_dropLast
    (h : Itinerary interpreter raws passages context before context' after ending) :
    ∀ passage ∈ passages.dropLast, passage.Complete interpreter := by
  induction h with
  | done | cancelled | stopped => simp
  | @next raw raws events passages context middle context' before world after ending hgoing leads
      itinerary ih =>
      cases passages with
      | nil => simp
      | cons passage rest =>
          rw [List.dropLast_cons_cons, List.forall_mem_cons]
          exact ⟨(leads.passage hgoing).2.1 rfl, ih⟩

/-- A run that is done has gone through all values. -/
theorem exhausts (h : Itinerary interpreter raws passages context before context' after ending)
    (hending : ending = .done) : Exhausts interpreter raws passages := by
  induction h with
  | done => exact ⟨rfl, by simp⟩
  | cancelled => contradiction
  | stopped hgoing leads hstops => exact absurd hending hstops
  | next hgoing leads itinerary ih =>
      obtain ⟨hraws, hcomplete⟩ := ih hending
      refine ⟨by rw [List.map_cons, hraws], ?_⟩
      rw [List.forall_mem_cons]
      exact ⟨(leads.passage hgoing).2.1 rfl, hcomplete⟩

/-- A run that was cancelled has left something out. -/
theorem not_exhausts (h : Itinerary interpreter raws passages context before context' after ending)
    (hending : ending = .cancelled) : ¬Exhausts interpreter raws passages := by
  induction h with
  | done => contradiction
  | cancelled => simp [Exhausts]
  | stopped hgoing leads hstops =>
      intro hexhausts
      exact (leads.passage hgoing).2.2 hending (hexhausts.2 _ List.mem_cons_self)
  | next hgoing leads itinerary ih =>
      intro hexhausts
      obtain ⟨-, hcomplete⟩ := List.forall_mem_cons.mp hexhausts.2
      exact ih hending ⟨(List.cons.inj hexhausts.1).2, hcomplete⟩

end Itinerary

end Runbook

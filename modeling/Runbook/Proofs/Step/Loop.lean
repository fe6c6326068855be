import Runbook.Proofs.Step

/-!
# Runbook.Proofs.Step.Loop

Steps with another loop. A record that is written with one field changed is read as the record with
the field changed, whichever of its two forms it has (`Value.asRecord_withField`): the other fields
are assigned as before, since no assignment looks at another field. So a step whose loop is written
anew is the same step with the new loop (`Step.ofValue_withLoop`).
-/

namespace Runbook

namespace Value

/-- The record with a field written anew: under its name, or at its place in the list. -/
def withField (v : Value) (fields : List String) (name : String) (value : Value) : Value :=
  match v with
  | .object entries => .object (entries.map fun e => if e.1 = name then (e.1, value) else e)
  | .array items => .array (items.set (fields.idxOf name) value)
  | v => v

section Records

variable {α : Type} {assign : α → String → Value → Except Misfit α}

/-- The items of a list are assigned like entries with the names of the fields. -/
theorem assignItems_eq (record : α) (names : List String) (items : List Value) :
    assignItems assign record names items = assignEntries assign record (names.zip items) := by
  induction names generalizing record items with
  | nil => rfl
  | cons name names ih =>
      cases items with
      | nil => rfl
      | cons v vs =>
          rw [assignItems, List.zip_cons_cons, assignEntries]
          cases assign record name v with
          | error misfit => rfl
          | ok next => exact ih next vs

/-- Setting one value among those zipped with distinct names changes the entry of its name. -/
theorem zip_set {names : List String} (hnodup : names.Nodup) (name : String) (value : Value)
    (items : List Value) :
    names.zip (items.set (names.idxOf name) value) =
      (names.zip items).map fun e => if e.1 = name then (e.1, value) else e := by
  induction names generalizing items with
  | nil => rfl
  | cons other names ih =>
      obtain ⟨hnew, hnodup⟩ := List.nodup_cons.mp hnodup
      cases items with
      | nil => rfl
      | cons v vs =>
          by_cases hname : other = name
          · subst hname
            have hrest : (names.zip vs).map (fun e => if e.1 = other then (e.1, value) else e) =
                names.zip vs := by
              refine (List.map_congr_left fun e he => if_neg ?_).trans (List.map_id _)
              rintro rfl
              exact hnew (List.of_mem_zip he).1
            simp [hrest]
          · have hbeq : (other == name) = false := by simpa using hname
            rw [List.idxOf_cons, hbeq, cond_false]
            simp [hname, ih hnodup]

variable {R : α → α → Prop} {name : String} {value : Value}
  (hother : ∀ s t other v s', other ≠ name → R s t → assign s other v = .ok s' →
    ∃ t', assign t other v = .ok t' ∧ R s' t')
  (hfield : ∀ s t v s', R s t → assign s name v = .ok s' →
    ∃ t', assign t name value = .ok t' ∧ R s' t')
include hother hfield

/-- Entries that differ in one field are assigned to records that differ in it. -/
theorem assignEntries_withField {s t s' : α} {entries : List (String × Value)} (hst : R s t)
    (h : assignEntries assign s entries = .ok s') :
    ∃ t', assignEntries assign t
      (entries.map fun e => if e.1 = name then (e.1, value) else e) = .ok t' ∧ R s' t' := by
  induction entries generalizing s t with
  | nil =>
      cases h
      exact ⟨t, rfl, hst⟩
  | cons e es ih =>
      obtain ⟨k, v⟩ := e
      rw [assignEntries] at h
      cases hassign : assign s k v with
      | error misfit =>
          rw [hassign] at h
          contradiction
      | ok next =>
          rw [hassign] at h
          by_cases hk : k = name
          · subst hk
            obtain ⟨next', hnext, hR⟩ := hfield s t v next hst hassign
            simpa [assignEntries, hnext] using ih hR h
          · obtain ⟨next', hnext, hR⟩ := hother s t k v next hk hst hassign
            simpa [assignEntries, hk, hnext] using ih hR h

/-- A relation between two records that every assignment keeps holds between what is read from a
record and from the record with the field written anew. -/
theorem asRecord_withField {kind : String} {fields : List String} (hnodup : fields.Nodup)
    {default record : α} (hdefault : R default default) {v : Value}
    (h : v.asRecord assign kind fields default = .ok record) :
    ∃ record', (v.withField fields name value).asRecord assign kind fields default = .ok record' ∧
      R record record' := by
  cases v with
  | object entries => exact assignEntries_withField hother hfield hdefault h
  | array items =>
      rw [asRecord, assignItems_eq] at h
      cases hitems : assignEntries assign default (fields.zip items) with
      | error misfit =>
          rw [hitems] at h
          contradiction
      | ok next =>
          simp only [hitems] at h
          split at h
          · contradiction
          · next hlength =>
              cases h
              obtain ⟨record', hread, hR⟩ :=
                assignEntries_withField hother hfield hdefault hitems
              refine ⟨record', ?_, hR⟩
              rw [withField, asRecord, assignItems_eq, zip_set hnodup, hread]
              simp [hlength]
  | null | bool b | number n | string s => contradiction

end Records

end Value

namespace Step

/-- The step with its loop written anew. -/
def withLoop (raw : Value) (items : List Value) : Value :=
  raw.withField fields "loop" (.array items)

/-- No assignment looks at the loop but that of the loop. -/
theorem assignField_loop {name : String} (hname : name ≠ "loop") (step : Step)
    (loop : Option Value) (v : Value) :
    assignField { step with loop := loop } name v =
      (assignField step name v).map fun step => { step with loop := loop } := by
  unfold assignField
  split
  case h_6 => contradiction
  case h_5 | h_12 => rfl
  all_goals
    simp only [Except.map]
    split <;> rfl

/-- Only the field of the loop changes the loop. -/
theorem loop_of_assignField {name : String} (hname : name ≠ "loop") {step step' : Step} {v : Value}
    (h : assignField step name v = .ok step') : step'.loop = step.loop := by
  have hself := assignField_loop hname step step.loop v
  simp only [h, Except.map, Except.ok.injEq] at hself
  rw [hself]

/-- A step whose loop is written anew is the step with the new loop. -/
theorem ofValue_withLoop {raw : Value} {step : Step} (h : ofValue raw = .ok step)
    (hloop : step.loop.isSome = true) (items : List Value) :
    ofValue (withLoop raw items) = .ok { step with loop := some (.array items) } := by
  -- both steps agree apart from the loop, and where the first has one, the second has the new one
  let R : Step → Step → Prop := fun s t =>
    t = { s with loop := t.loop } ∧ (s.loop.isSome = true → t.loop = some (.array items))
  have hother : ∀ s t other v s', other ≠ "loop" → R s t → assignField s other v = .ok s' →
      ∃ t', assignField t other v = .ok t' ∧ R s' t' := by
    rintro s t other v s' hname ⟨hst, hnew⟩ hs
    refine ⟨{ s' with loop := t.loop }, ?_, rfl, ?_⟩
    · rw [hst, assignField_loop hname, hs]
      rfl
    · rw [loop_of_assignField hname hs]
      exact hnew
  have hfield : ∀ s t v s', R s t → assignField s "loop" v = .ok s' →
      ∃ t', assignField t "loop" (.array items) = .ok t' ∧ R s' t' := by
    rintro s t v s' ⟨hst, -⟩ hs
    refine ⟨{ t with loop := some (.array items) }, rfl, ?_, fun _ => rfl⟩
    rw [← Except.ok.inj hs, hst]
  obtain ⟨step', hstep', heq, hnew⟩ := Value.asRecord_withField hother hfield
    (by decide) ⟨rfl, fun h => absurd h (by decide)⟩ h
  rw [hnew hloop] at heq
  exact heq ▸ hstep'

end Step

end Runbook

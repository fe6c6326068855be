import Runbook.Proofs.Step.Loop
import Runbook.Proofs.Step.Retries

/-!
# Runbook.Proofs.Step.NormalForm

Steps that are written and read again. No field of a step that was read is present and null, and the
number of retries is within the limit (`Step.IsNormal`); these are all the steps that can be read at
all, since such a step is read from the mapping of all its fields (`Step.isNormal_iff`). So writing
brings every form of a step, with fields left out, null, unknown, or in any order, and the list of
the first fields as well, to one form that stands for itself (`Step.ofValue_toValue`).
-/

namespace Runbook.Step

/-- A step that can be read: what is there is not null, and the number of retries is within the
limit. -/
structure IsNormal (step : Step) : Prop where
  condition : step.condition ≠ some .null
  loop : step.loop ≠ some .null
  retries : step.retries ≤ maxRetries

/-! ## steps that were read -/

/-- A value that is present is not null. -/
theorem present_ne_null (v : Value) : present v ≠ some .null := by
  cases v <;> simp [present]

/-- Assigning a field keeps a step normal. -/
theorem IsNormal.assignField {step step' : Step} {name : String} {v : Value}
    (hstep : step.IsNormal) (h : assignField step name v = .ok step') : step'.IsNormal := by
  have hretries := retries_le_of_assignField hstep.retries h
  unfold Step.assignField at h
  split at h
  case h_5 =>
      cases h
      exact ⟨present_ne_null v, hstep.loop, hretries⟩
  case h_6 =>
      cases h
      exact ⟨hstep.condition, present_ne_null v, hretries⟩
  case h_12 =>
      cases h
      exact hstep
  all_goals
    have hcondition := of_map_eq_ok (P := fun step => step.condition ≠ some .null) h
      fun _ => hstep.condition
    have hloop := of_map_eq_ok (P := fun step => step.loop ≠ some .null) h fun _ => hstep.loop
    exact ⟨hcondition, hloop, hretries⟩

/-- The defaults of a step are in normal form. -/
theorem isNormal_default : default.IsNormal where
  condition := by simp [default]
  loop := by simp [default]
  retries := Nat.zero_le _

/-- Every step that was read is normal. -/
theorem isNormal_of_ofValue {v : Value} {step : Step} (h : ofValue v = .ok step) :
    step.IsNormal :=
  Value.asRecord_keeps (fun _ _ _ _ => IsNormal.assignField) isNormal_default h

/-! ## steps that are written -/

/-- The values of the fields, in their order. -/
def values (step : Step) : List Value :=
  [.string step.id, .optionalText step.tool, .optionalText step.description, .object step.args,
    step.condition.getD .null, step.loop.getD .null, .string step.loopVariable,
    .ofNat step.retries, .bool step.allowFailure, .optionalText step.assign,
    .optionalText step.retryDelay]

theorem toValue_eq_zip (step : Step) : step.toValue = .object (fields.zip step.values) := rfl

/-- A text that may be missing is read back. -/
theorem optionally_optionalText (s : Option String) :
    (Value.optionalText s).optionally Value.asString = .ok s := by
  cases s <;> rfl

/-- So is a value that is not null. -/
theorem present_getD {v : Option Value} (hv : v ≠ some .null) : present (v.getD .null) = v := by
  cases v with
  | none => rfl
  | some v => cases v <;> simp_all [present]

/-- So is a number of retries that is allowed. -/
theorem asRetries_ofNat {n : Nat} (hn : n ≤ maxRetries) : asRetries (.ofNat n) = .ok n :=
  asRetries_eq_ok_iff.mpr ⟨.integer n, hn⟩

/-- The fields of a normal step are assigned one after the other, whatever there was before. -/
theorem IsNormal.assignEntries {step : Step} (h : step.IsNormal) (record : Step) :
    Value.assignEntries Step.assignField record (fields.zip step.values) = .ok step := by
  -- each field becomes what it is in the step
  have hid (s : Step) : s.assignField "id" (.string step.id) = .ok { s with id := step.id } := rfl
  have htool (s : Step) : s.assignField "tool" (.optionalText step.tool) =
      .ok { s with tool := step.tool } := by
    rw [Step.assignField, optionally_optionalText]
    rfl
  have hdescription (s : Step) : s.assignField "description" (.optionalText step.description) =
      .ok { s with description := step.description } := by
    rw [Step.assignField, optionally_optionalText]
    rfl
  have hargs (s : Step) : s.assignField "args" (.object step.args) =
      .ok { s with args := step.args } := rfl
  have hwhen (s : Step) : s.assignField "when" (step.condition.getD .null) =
      .ok { s with condition := step.condition } := by
    rw [Step.assignField, present_getD h.condition]
  have hloop (s : Step) : s.assignField "loop" (step.loop.getD .null) =
      .ok { s with loop := step.loop } := by
    rw [Step.assignField, present_getD h.loop]
  have hvariable (s : Step) : s.assignField "loop_var" (.string step.loopVariable) =
      .ok { s with loopVariable := step.loopVariable } := rfl
  have hretries (s : Step) : s.assignField "retries" (.ofNat step.retries) =
      .ok { s with retries := step.retries } := by
    rw [Step.assignField, asRetries_ofNat h.retries]
    rfl
  have hallow (s : Step) : s.assignField "allow_failure" (.bool step.allowFailure) =
      .ok { s with allowFailure := step.allowFailure } := rfl
  have hassign (s : Step) : s.assignField "assign" (.optionalText step.assign) =
      .ok { s with assign := step.assign } := by
    rw [Step.assignField, optionally_optionalText]
    rfl
  have hdelay (s : Step) : s.assignField "retry_delay" (.optionalText step.retryDelay) =
      .ok { s with retryDelay := step.retryDelay } := by
    rw [Step.assignField, optionally_optionalText]
    rfl
  -- rewritten one by one, since unfolding all at once makes the kernel compare the names
  have hnext {s t : Step} {name : String} {v : Value} (rest : List (String × Value))
      (hfield : s.assignField name v = .ok t) :
      Value.assignEntries Step.assignField s ((name, v) :: rest) =
        Value.assignEntries Step.assignField t rest := by
    rw [Value.assignEntries, hfield]
  simp only [fields, values, List.zip_cons_cons, List.zip_nil_left]
  rw [hnext _ (hid _), hnext _ (htool _), hnext _ (hdescription _), hnext _ (hargs _),
    hnext _ (hwhen _), hnext _ (hloop _), hnext _ (hvariable _), hnext _ (hretries _),
    hnext _ (hallow _), hnext _ (hassign _), hnext _ (hdelay _), Value.assignEntries]

/-- A normal step is read from the mapping of its fields, and from the list of their values. -/
theorem IsNormal.ofValue_eq {step : Step} (h : step.IsNormal) :
    ofValue step.toValue = .ok step ∧ ofValue (.array step.values) = .ok step := by
  constructor
  · rw [toValue_eq_zip]
    exact h.assignEntries default
  · rw [ofValue, Value.asRecord, Value.assignItems_eq, h.assignEntries default]
    simp [fields, values]

/-- The normal steps are those that are read from some value. -/
theorem isNormal_iff {step : Step} : step.IsNormal ↔ ∃ v, ofValue v = .ok step := by
  constructor
  · intro h
    exact ⟨step.toValue, h.ofValue_eq.1⟩
  · rintro ⟨v, h⟩
    exact isNormal_of_ofValue h

/-- **The normal form of a step.** Whatever a step was read from, it is written as a mapping of all
its fields in their order, from which the very same step is read again; and so it is from the list
of their values. It allows at most a hundred retries. -/
theorem ofValue_toValue {v : Value} {step : Step} (h : ofValue v = .ok step) :
    ofValue step.toValue = .ok step ∧ step.retries ≤ 100 ∧
    ∃ values : List Value, step.toValue = .object (fields.zip values) ∧
      values.length = fields.length ∧ ofValue (.array values) = .ok step := by
  have hnormal := isNormal_iff.mpr ⟨v, h⟩
  obtain ⟨hmapping, hlist⟩ := hnormal.ofValue_eq
  exact ⟨hmapping, hnormal.retries, step.values, toValue_eq_zip step, rfl, hlist⟩

/-- A mapping with an unknown field, a condition that is null, and a text for the retries. -/
theorem ofValue_toValue_untidy :
    let untidy : Value := .object [("retries", .string " +07 "), ("when", .null),
      ("owner", .array [.null]), ("loop", .array [.null]), ("id", .string "a")]
    let step : Step := { default with id := "a", loop := some (.array [.null]), retries := 7 }
    ofValue untidy = .ok step ∧ ofValue step.toValue = .ok step ∧ step.retries ≤ 100 := by
  intro untidy step
  have h : ofValue untidy = .ok step := rfl
  have hnormal := ofValue_toValue h
  exact ⟨h, hnormal.1, hnormal.2.1⟩

end Runbook.Step

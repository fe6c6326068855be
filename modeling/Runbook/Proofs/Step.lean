import Runbook.Proofs.Step.Retries

/-!
# Runbook.Proofs.Step

What every step satisfies that was read from a value. A record is read by assigning its fields one
after the other, so what each assignment keeps holds of the whole record (`asRecord_keeps`); the
number of retries is kept below its limit (`retries_le_of_ofValue`).
-/

namespace Runbook

namespace Value

variable {α : Type} {assign : α → String → Value → Except Misfit α} {P : α → Prop}

/-- Assigning entries keeps what assigning one field keeps. -/
theorem assignEntries_keeps
    (hassign : ∀ record name v record', P record → assign record name v = .ok record' → P record')
    {entries : List (String × Value)} {record record' : α} (hrecord : P record)
    (h : assignEntries assign record entries = .ok record') : P record' := by
  induction entries generalizing record with
  | nil =>
      simp only [assignEntries, Except.ok.injEq] at h
      exact h ▸ hrecord
  | cons entry entries ih =>
      obtain ⟨name, v⟩ := entry
      simp only [assignEntries] at h
      cases hfield : assign record name v with
      | error misfit => simp [hfield] at h
      | ok next =>
          simp only [hfield] at h
          exact ih (hassign record name v next hrecord hfield) h

/-- Assigning items keeps what assigning one field keeps. -/
theorem assignItems_keeps
    (hassign : ∀ record name v record', P record → assign record name v = .ok record' → P record')
    {names : List String} {items : List Value} {record record' : α} (hrecord : P record)
    (h : assignItems assign record names items = .ok record') : P record' := by
  induction names generalizing items record with
  | nil =>
      simp only [assignItems, Except.ok.injEq] at h
      exact h ▸ hrecord
  | cons name names ih =>
      cases items with
      | nil =>
          simp only [assignItems, Except.ok.injEq] at h
          exact h ▸ hrecord
      | cons v items =>
          simp only [assignItems] at h
          cases hfield : assign record name v with
          | error misfit => simp [hfield] at h
          | ok next =>
              simp only [hfield] at h
              exact ih (hassign record name v next hrecord hfield) h

/-- A record that was read has every property that its default has and each assignment keeps. -/
theorem asRecord_keeps
    (hassign : ∀ record name v record', P record → assign record name v = .ok record' → P record')
    {kind : String} {fields : List String} {default record : α} (hdefault : P default) {v : Value}
    (h : v.asRecord assign kind fields default = .ok record) : P record := by
  cases v with
  | object entries => exact assignEntries_keeps hassign hdefault h
  | array items =>
      simp only [asRecord] at h
      cases hitems : assignItems assign default fields items with
      | error misfit => simp [hitems] at h
      | ok next =>
          simp only [hitems] at h
          split at h
          · simp at h
          · simp only [Except.ok.injEq] at h
            exact h ▸ assignItems_keeps hassign hdefault hitems
  | null | bool | number | string => simp [asRecord] at h

end Value

namespace Step

/-- What holds of every update holds of the one that is made with what was read. -/
theorem of_map_eq_ok {P : Step → Prop} {α : Type} {read : Except Misfit α} {update : α → Step}
    {step : Step} (h : read.map update = .ok step) (hupdate : ∀ x, P (update x)) : P step := by
  cases read with
  | error misfit => simp [Except.map] at h
  | ok x =>
      simp only [Except.map, Except.ok.injEq] at h
      exact h ▸ hupdate x

/-- Assigning a field keeps the number of retries within the limit. -/
theorem retries_le_of_assignField {step step' : Step} {name : String} {v : Value}
    (hstep : step.retries ≤ maxRetries) (h : assignField step name v = .ok step') :
    step'.retries ≤ maxRetries := by
  unfold assignField at h
  split at h
  case h_8 =>
      cases hv : asRetries v with
      | error misfit => simp [hv, Except.map] at h
      | ok n =>
          simp only [hv, Except.map, Except.ok.injEq] at h
          subst h
          exact (asRetries_eq_ok_iff.mp hv).2
  -- conditions, loops and unknown fields are taken as they are
  case h_5 | h_6 | h_12 =>
      cases h
      exact hstep
  all_goals exact of_map_eq_ok (P := fun step => step.retries ≤ maxRetries) h fun _ => hstep

/-- No step that was read allows more than the largest number of retries. -/
theorem retries_le_of_ofValue {v : Value} {step : Step} (h : ofValue v = .ok step) :
    step.retries ≤ maxRetries :=
  Value.asRecord_keeps (P := fun step => step.retries ≤ maxRetries)
    (fun _ _ _ _ => retries_le_of_assignField) (Nat.zero_le _) h

end Step

end Runbook

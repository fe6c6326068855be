import Runbook.Proofs.Text.Numeral
import Runbook.Step

/-!
# Runbook.Proofs.Step.Retries

The number of retries that a step allows. A value tells a number (`Step.TellsRetries`) if it is
null, the integer itself, or a text that spells it between blanks; whether a step can be read from
the value is then a matter of the range alone (`Step.asRetries_eq_ok_iff`). Every other value makes
the step malformed: no float is rounded, and no integer is cut down to a word before it is compared
with the limit (`Step.retries_exact`).
-/

namespace Runbook.Step

/-- The value tells how many retries there are. -/
inductive TellsRetries : Value → Int → Prop
  | none : TellsRetries .null 0
  | integer (i : Int) : TellsRetries (.number (.int i)) i
  | text {s : String} {i : Int} (h : Text.SpellsInteger (Text.trim s.toList) i) :
      TellsRetries (.string s) i

/-- A step with no field but the number of retries. -/
def retriesOnly (v : Value) : Value := .object [("retries", v)]

/-- No step can be read from the value. -/
def IsMalformed (v : Value) : Prop := ∃ misfit, ofValue v = .error misfit

/-! ## the range -/

/-- An integer tells the retries just when it is a number of at most 100. -/
theorem retriesOfInt_eq_ok_iff {i : Int} {n : Nat} :
    retriesOfInt i = .ok n ↔ i = n ∧ n ≤ maxRetries := by
  have hlimit : maxRetries < 0x100000000 := by decide
  unfold retriesOfInt
  split
  · next hword =>
      simp only [reduceCtorEq, false_iff, not_and]
      omega
  · split
    · simp only [reduceCtorEq, false_iff, not_and]
      omega
    · simp only [Except.ok.injEq]
      omega

/-- A number of retries is read from the values that tell it, unless it is above the limit. -/
theorem asRetries_eq_ok_iff {v : Value} {n : Nat} :
    asRetries v = .ok n ↔ TellsRetries v n ∧ n ≤ maxRetries := by
  have hlimit : maxRetries < Text.signedLimit := by decide
  constructor
  · intro h
    cases v with
    | null =>
        obtain rfl : 0 = n := by simpa [asRetries] using h
        exact ⟨.none, Nat.zero_le _⟩
    | string s =>
        simp only [asRetries] at h
        split at h
        · next i hi =>
            obtain ⟨rfl, hn⟩ := retriesOfInt_eq_ok_iff.mp h
            exact ⟨.text (Text.integer?_eq_some_iff.mp hi).1, hn⟩
        · contradiction
    | number x =>
        cases x with
        | int i =>
            simp only [asRetries] at h
            split at h
            · obtain ⟨rfl, hn⟩ := retriesOfInt_eq_ok_iff.mp h
              exact ⟨.integer _, hn⟩
            · contradiction
        | float x => contradiction
    | bool | array | object => contradiction
  · rintro ⟨htells, hn⟩
    -- a count that is told is within the limit, and so within a word
    have hread : retriesOfInt n = .ok n := retriesOfInt_eq_ok_iff.mpr ⟨rfl, hn⟩
    generalize hi : (n : Int) = i at htells hread
    cases htells with
    | none => simp [asRetries, Int.natCast_eq_zero.mp hi]
    | integer => simp only [asRetries, if_pos (show i < (Text.signedLimit : Int) by omega), hread]
    | text h =>
        have hinteger := Text.integer?_eq_some_iff.mpr ⟨h, by omega, by omega⟩
        simp only [asRetries, hinteger, hread]

/-! ## steps -/

/-- A step with nothing but retries is read by them. -/
theorem ofValue_retriesOnly (v : Value) :
    ofValue (retriesOnly v) = (asRetries v).map fun n => { default with retries := n } := by
  simp only [ofValue, retriesOnly, Value.asRecord, Value.assignEntries, assignField]
  cases asRetries v <;> rfl

/-- It is read just when they are told and are at most 100. -/
theorem ofValue_retriesOnly_eq_ok_iff (v : Value) (step : Step) :
    ofValue (retriesOnly v) = .ok step ↔
      ∃ n : Nat, TellsRetries v n ∧ n ≤ 100 ∧ step = { default with retries := n } := by
  rw [ofValue_retriesOnly]
  constructor
  · intro h
    cases hread : asRetries v with
    | error misfit => simp [hread, Except.map] at h
    | ok n =>
        obtain ⟨htells, hn⟩ := asRetries_eq_ok_iff.mp hread
        simp only [hread, Except.map, Except.ok.injEq] at h
        exact ⟨n, htells, hn, h.symm⟩
  · rintro ⟨n, htells, hn, hstep⟩
    rw [asRetries_eq_ok_iff.mpr ⟨htells, hn⟩, hstep]
    rfl

/-- A value is malformed just when it is read as no step. -/
theorem isMalformed_iff (v : Value) : IsMalformed v ↔ ¬∃ step, ofValue v = .ok step := by
  unfold IsMalformed
  cases ofValue v <;> simp

/-- A step with nothing but retries is malformed just when they tell no number up to 100. -/
theorem isMalformed_retriesOnly_iff (v : Value) :
    IsMalformed (retriesOnly v) ↔ ¬∃ n : Nat, TellsRetries v n ∧ n ≤ 100 := by
  rw [isMalformed_iff]
  apply not_congr
  constructor
  · rintro ⟨step, h⟩
    obtain ⟨n, htells, hn, -⟩ := (ofValue_retriesOnly_eq_ok_iff v step).mp h
    exact ⟨n, htells, hn⟩
  · rintro ⟨n, htells, hn⟩
    exact ⟨_, (ofValue_retriesOnly_eq_ok_iff v _).mpr ⟨n, htells, hn, rfl⟩⟩

/-- **Retry counts.** A step with no field but the number of retries is read if and only if the
value tells a number from 0 to 100, and it is the step without any field but for this number. Every
float makes it malformed, every integer below or above the range, however large, and every text that
does not spell an integer in the range between blanks. -/
theorem retries_exact :
    (∀ v step, ofValue (retriesOnly v) = .ok step ↔
      ∃ n : Nat, TellsRetries v n ∧ n ≤ 100 ∧ step = { default with retries := n }) ∧
    (∀ x, IsMalformed (retriesOnly (.number (.float x)))) ∧
    (∀ i, IsMalformed (retriesOnly (.number (.int i))) ↔ i < 0 ∨ 100 < i) ∧
    (∀ s, IsMalformed (retriesOnly (.string s)) ↔
      ¬∃ n : Nat, Text.SpellsInteger (Text.trim s.toList) n ∧ n ≤ 100) := by
  refine ⟨ofValue_retriesOnly_eq_ok_iff, ?_, ?_, ?_⟩
  · intro x
    rw [isMalformed_retriesOnly_iff]
    rintro ⟨n, htells, hn⟩
    cases htells
  · intro i
    rw [isMalformed_retriesOnly_iff]
    constructor
    · intro hnone
      by_cases hrange : i < 0 ∨ 100 < i
      · exact hrange
      · -- an integer in the range tells itself
        have hi : ((i.toNat : Nat) : Int) = i := by omega
        exact absurd ⟨i.toNat, hi.symm ▸ .integer i, by omega⟩ hnone
    · rintro hrange ⟨n, htells, hn⟩
      cases htells
      omega
  · intro s
    rw [isMalformed_retriesOnly_iff]
    apply not_congr
    constructor
    · rintro ⟨n, htells, hn⟩
      cases htells with
      | text h => exact ⟨n, h, hn⟩
    · rintro ⟨n, h, hn⟩
      exact ⟨n, .text h, hn⟩

end Runbook.Step

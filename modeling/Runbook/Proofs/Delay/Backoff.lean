import Runbook.Run.Attempt
import Mathlib.Algebra.Group.Nat.Defs
import Mathlib.Order.Basic

/-!
# Runbook.Proofs.Delay.Backoff

The pauses between attempts as exact lengths. The arithmetic of delays is done in words, with a
carry from the nanoseconds to the seconds; the length of a multiple is nevertheless the multiple of
the length, up to the longest delay (`Delay.toNanos_times`). So the pause behind a failed attempt is
the base, doubled for each attempt before it, but not more often than ten times, and no step on the
way to it runs over its word (`Delay.backoff_exact`).
-/

namespace Runbook

/-! ## words -/

/-- A result in words: the word of a number, or nothing for a number that is no word. -/
inductive HasValue : Option UInt64 → Nat → Prop
  | fits (a : UInt64) : HasValue (some a) a.toNat
  | tooLarge {n : Nat} (h : 2 ^ 64 ≤ n) : HasValue none n

/-- The word of a number has its value, where the number is known to fit. -/
theorem hasValue_ite {a : UInt64} {n : Nat} (h : a.toNat = n % 2 ^ 64) :
    HasValue (if n < Text.wordLimit then some a else none) n := by
  split
  · next hfits =>
      have hvalue : a.toNat = n := h.trans (Nat.mod_eq_of_lt hfits)
      exact hvalue ▸ .fits a
  · next hlarge => exact .tooLarge (Nat.le_of_not_lt hlarge)

/-- A checked product is the product, or there is none that fits. -/
theorem hasValue_checkedMul? (a b : UInt64) : HasValue (checkedMul? a b) (a.toNat * b.toNat) :=
  hasValue_ite (UInt64.toNat_mul a b)

/-- So is a checked sum. -/
theorem hasValue_checkedAdd? (a b : UInt64) : HasValue (checkedAdd? a b) (a.toNat + b.toNat) :=
  hasValue_ite (UInt64.toNat_add a b)

namespace Delay

/-! ## lengths -/

theorem toNanos_longest : longest.toNanos = (2 ^ 64 - 1) * 10 ^ 9 + 999999999 := by decide

/-- A delay is longer than the longest one as soon as its seconds are no word. -/
theorem toNanos_longest_lt {seconds : Nat} (h : 2 ^ 64 ≤ seconds) (nanos : Nat) :
    longest.toNanos < seconds * nanosPerSecond + nanos := by
  have hle : 2 ^ 64 * nanosPerSecond ≤ seconds * nanosPerSecond := Nat.mul_le_mul_right _ h
  rw [toNanos_longest]
  unfold nanosPerSecond at *
  omega

/-- No delay is longer than the longest. -/
theorem toNanos_le_longest (d : Delay) : d.toNanos ≤ longest.toNanos := by
  have hseconds := d.seconds.toNat_lt
  have hnanos := d.nanos.isLt
  rw [toNanos_longest, toNanos]
  unfold nanosPerSecond at *
  omega

/-- A result of arithmetic on delays: the delay of that length, or nothing for a length that is
longer than any delay. -/
inductive HasLength : Option Delay → Nat → Prop
  | fits (d : Delay) : HasLength (some d) d.toNanos
  | tooLong {n : Nat} (h : longest.toNanos < n) : HasLength none n

/-- A length that does not fit is cut to the longest. -/
theorem HasLength.toNanos_getD {d : Option Delay} {n : Nat} (h : HasLength d n) :
    (d.getD longest).toNanos = min n longest.toNanos := by
  cases h with
  | fits d => exact (Nat.min_eq_left d.toNanos_le_longest).symm
  | tooLong h => exact (Nat.min_eq_right (Nat.le_of_lt h)).symm

/-! ## multiples -/

/-- Fewer nanoseconds than a second has, times half a word, fit a word. -/
theorem toNat_nanosTimes (d : Delay) (n : UInt32) :
    (d.nanosTimes n).toNat = d.nanos * n.toNat := by
  have hnanos : (d.nanos : Nat) < 2 ^ 30 := Nat.lt_trans d.nanos.isLt (by decide)
  have hproduct : (d.nanos : Nat) * n.toNat < 2 ^ 64 :=
    calc (d.nanos : Nat) * n.toNat < 2 ^ 30 * 2 ^ 32 :=
          Nat.mul_lt_mul_of_lt_of_lt hnanos n.toNat_lt
      _ < 2 ^ 64 := by decide
  rw [nanosTimes, UInt64.toNat_mul, UInt32.toNat_toUInt64, UInt64.toNat_ofNat',
    Nat.mod_eq_of_lt (Nat.lt_trans hnanos (by decide)), Nat.mod_eq_of_lt hproduct]

/-- Carrying does not change the length. -/
theorem hasLength_carry? (seconds nanos : UInt64) :
    HasLength (carry? seconds nanos) (seconds.toNat * nanosPerSecond + nanos.toNat) := by
  have hcarried : (nanos / .ofNat nanosPerSecond).toNat = nanos.toNat / nanosPerSecond :=
    UInt64.toNat_div ..
  have hlength : seconds.toNat * nanosPerSecond + nanos.toNat =
      (seconds.toNat + nanos.toNat / nanosPerSecond) * nanosPerSecond +
        nanos.toNat % nanosPerSecond := by
    rw [Nat.add_mul, Nat.add_assoc, Nat.div_add_mod']
  have hsum := hasValue_checkedAdd? seconds (nanos / .ofNat nanosPerSecond)
  rw [hcarried] at hsum
  rw [hlength, carry?]
  generalize checkedAdd? seconds (nanos / .ofNat nanosPerSecond) = sum,
    seconds.toNat + nanos.toNat / nanosPerSecond = n at hsum ⊢
  cases hsum with
  | fits a => exact .fits ⟨a, .ofNat _ nanos.toNat⟩
  | tooLarge h => exact .tooLong (toNanos_longest_lt h _)

/-- The length of a multiple is the multiple of the length, up to the longest delay. -/
theorem toNanos_times (d : Delay) (n : UInt32) :
    (d.times n).toNanos = min (d.toNanos * n.toNat) longest.toNanos := by
  have hlength : d.toNanos * n.toNat =
      d.seconds.toNat * n.toNat * nanosPerSecond + (d.nanosTimes n).toNat := by
    rw [toNanos, toNat_nanosTimes, Nat.add_mul, Nat.mul_right_comm]
  have hseconds := hasValue_checkedMul? d.seconds n.toUInt64
  rw [UInt32.toNat_toUInt64] at hseconds
  rw [hlength, times]
  apply HasLength.toNanos_getD
  generalize checkedMul? d.seconds n.toUInt64 = product,
    d.seconds.toNat * n.toNat = seconds at hseconds ⊢
  cases hseconds with
  | fits a => exact hasLength_carry? a _
  | tooLarge h => exact .tooLong (toNanos_longest_lt h _)

/-! ## pauses -/

/-- The shift stays inside its word. -/
theorem toNat_factor (attempt : Nat) : (factor attempt).toNat = 2 ^ min (attempt - 1) 10 := by
  have hshift : ∀ n ≤ 10, ((1 : UInt32) <<< UInt32.ofNat n).toNat = 2 ^ n := by decide
  exact hshift _ (Nat.min_le_right _ _)

/-- Later attempts have no smaller factor. -/
theorem factor_le_factor {attempt later : Nat} (h : attempt ≤ later) :
    (factor attempt).toNat ≤ (factor later).toNat := by
  rw [toNat_factor, toNat_factor]
  exact Nat.pow_le_pow_right (by decide) (by omega)

/-- The nanoseconds of a backoff: the base is doubled up to ten times and cut to the longest. -/
theorem toNanos_backoff (base : Delay) (attempt : Nat) :
    (base.backoff attempt).toNanos =
      min (base.toNanos * 2 ^ min (attempt - 1) 10) longest.toNanos := by
  rw [backoff, toNanos_times, toNat_factor]

/-- A longer base and a later attempt wait no shorter. -/
theorem backoff_le_backoff {base other : Delay} {attempt later : Nat}
    (hbase : base.toNanos ≤ other.toNanos) (hattempt : attempt ≤ later) :
    (base.backoff attempt).toNanos ≤ (other.backoff later).toNanos := by
  have hproduct := Nat.mul_le_mul hbase (factor_le_factor hattempt)
  rw [backoff, backoff, toNanos_times, toNanos_times]
  omega

/-- The pause doubles, up to a thousand and twenty-four times the base and the longest delay. -/
theorem toNanos_backoff_succ (base : Delay) {attempt : Nat} (h : 1 ≤ attempt) :
    (base.backoff (attempt + 1)).toNanos =
      min (2 * (base.backoff attempt).toNanos) (min (1024 * base.toNanos) longest.toNanos) := by
  have hdoubled {now cap most : Nat} (hcap : now * 2 ≤ cap) :
      min (now * 2) most = min (2 * min now most) (min cap most) := by omega
  have hcapped {cap most : Nat} : min cap most = min (2 * min cap most) (min cap most) := by omega
  rw [toNanos_backoff, toNanos_backoff, Nat.mul_comm 1024]
  rcases Nat.lt_or_ge attempt 11 with hless | hmore
  · have hnext : min (attempt + 1 - 1) 10 = min (attempt - 1) 10 + 1 := by omega
    have hpow : 2 ^ (min (attempt - 1) 10 + 1) ≤ 2 ^ 10 :=
      Nat.pow_le_pow_right (by decide) (by omega)
    have hcap := Nat.mul_le_mul_left base.toNanos hpow
    rw [hnext]
    rw [Nat.pow_succ, ← Nat.mul_assoc] at hcap ⊢
    exact hdoubled hcap
  · have hnow : min (attempt - 1) 10 = 10 := by omega
    have hnext : min (attempt + 1 - 1) 10 = 10 := by omega
    rw [hnow, hnext]
    exact hcapped

/-- **Backoff.** The pause behind a failed attempt, in nanoseconds, is the base times a power of
two, which grows with the attempts up to the eleventh one, or the longest delay if that is less. So
a longer base and a later attempt never make it shorter, and it doubles from one attempt to the next
until it is a thousand and twenty-four times the base or the longest delay. The shift and the
product on the way to it stay inside their words. -/
theorem backoff_exact (base : Delay) (attempt : Nat) :
    (base.backoff attempt).toNanos =
      min (base.toNanos * 2 ^ min (attempt - 1) 10) ((2 ^ 64 - 1) * 10 ^ 9 + 999999999) ∧
    (∀ (other : Delay) (later : Nat), base.toNanos ≤ other.toNanos → attempt ≤ later →
      (base.backoff attempt).toNanos ≤ (other.backoff later).toNanos) ∧
    (1 ≤ attempt → (base.backoff (attempt + 1)).toNanos =
      min (2 * (base.backoff attempt).toNanos)
        (min (1024 * base.toNanos) ((2 ^ 64 - 1) * 10 ^ 9 + 999999999))) ∧
    (factor attempt).toNat = 2 ^ min (attempt - 1) 10 ∧
    (base.nanosTimes (factor attempt)).toNat = base.nanos * (factor attempt).toNat := by
  rw [← toNanos_longest]
  exact ⟨toNanos_backoff base attempt, fun _ _ => backoff_le_backoff, toNanos_backoff_succ base,
    toNat_factor attempt, toNat_nanosTimes base _⟩

/-- Half the longest delay, without the odd nanosecond: its double is one short of the longest. -/
theorem backoff_exact_half :
    let half : Delay := ⟨0x7fffffffffffffff, 999999999⟩
    (half.backoff 2).toNanos = min (2 * (half.backoff 1).toNanos)
      (min (1024 * half.toNanos) ((2 ^ 64 - 1) * 10 ^ 9 + 999999999)) ∧
    half.backoff 2 = ⟨0xffffffffffffffff, 999999998⟩ ∧
    (half.backoff 2).toNanos ≤ (longest.backoff 3).toNanos := by
  intro half
  have hlongest : half.toNanos ≤ longest.toNanos := half.toNanos_le_longest
  exact ⟨(backoff_exact half 1).2.2.1 (by decide), by decide,
    (backoff_exact half 2).2.1 longest 3 hlongest (by decide)⟩

/-! ## runs -/

/-- What follows the attempts of a run: the pauses, and nothing behind the last attempt. -/
theorem pauses_attemptsFrom {World : Type} (capability : Capability World) (args : Entries)
    (base : Option Delay) (number retries : Nat) (world : World) :
    ∃ waits, (attemptsFrom capability args base number retries world).all.map Attempt.pause =
      (List.range' number waits).map (fun attempt => base.elim ⟨0, 0⟩ fun d => d.backoff attempt) ++
        [⟨0, 0⟩] := by
  induction retries generalizing number world with
  | zero => exact ⟨0, rfl⟩
  | succ retries ih =>
      rw [attemptsFrom]
      split
      · exact ⟨0, rfl⟩
      · obtain ⟨waits, hwaits⟩ := ih (number + 1) (capability.invoke args world).2
        exact ⟨waits + 1, by simp [hwaits, List.range'_succ]⟩

end Delay

end Runbook

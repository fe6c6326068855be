import Runbook.Text.Blank
import Runbook.Text.Numeral
import Runbook.Text.Search

/-!
# Runbook.Delay

Delays between attempts. A delay is a number of seconds that fits one word, and of nanoseconds below
a second. Arithmetic on delays is that of words: what the nanoseconds come to is carried to the
seconds, and a result that does not fit is the longest delay (`Delay.times`).

The text of a delay is a number with a unit, `ms`, `s` or `m`, and seconds without one.
-/

namespace Runbook

/-- The nanoseconds of a second. -/
def nanosPerSecond : Nat := 1000000000

instance : @NeZero Nat Zero.ofOfNat0 nanosPerSecond := ⟨by decide⟩

/-- A span of time. -/
structure Delay where
  /-- Whole seconds. -/
  seconds : UInt64
  /-- The rest in nanoseconds. -/
  nanos : Fin nanosPerSecond
deriving DecidableEq

/-! ## Words -/

/-- The product of two words, if it fits one. -/
def checkedMul? (a b : UInt64) : Option UInt64 :=
  if a.toNat * b.toNat < Text.wordLimit then some (a * b) else none

/-- The sum of two words, if it fits one. -/
def checkedAdd? (a b : UInt64) : Option UInt64 :=
  if a.toNat + b.toNat < Text.wordLimit then some (a + b) else none

namespace Delay

/-- The length of a delay in nanoseconds. -/
def toNanos (d : Delay) : Nat := d.seconds.toNat * nanosPerSecond + d.nanos

/-- The whole milliseconds of a delay. -/
def toMillis (d : Delay) : Nat := d.seconds.toNat * 1000 + d.nanos / 1000000

/-- The longest delay. -/
def longest : Delay := ⟨0xffffffffffffffff, 999999999⟩

/-- A number of seconds that fits a word. -/
def ofSeconds (n : Nat) : Delay := ⟨.ofNat n, 0⟩

/-- A number of milliseconds that fits a word. -/
def ofMillis (n : Nat) : Delay :=
  ⟨.ofNat (n / 1000), n % 1000 * 1000000, by rw [nanosPerSecond]; omega⟩

/-! ## Multiples -/

/-- A multiple of the nanoseconds of a delay, as a word. -/
def nanosTimes (d : Delay) (n : UInt32) : UInt64 := .ofNat d.nanos * n.toUInt64

/-- The delay of some seconds and nanoseconds. The seconds that the nanoseconds come to are carried,
if they fit the word. -/
def carry? (seconds nanos : UInt64) : Option Delay :=
  (checkedAdd? seconds (nanos / .ofNat nanosPerSecond)).map fun seconds =>
    ⟨seconds, .ofNat _ nanos.toNat⟩

/-- A multiple of a delay, or the longest one. -/
def times (d : Delay) (n : UInt32) : Delay :=
  ((checkedMul? d.seconds n.toUInt64).bind fun seconds => carry? seconds (d.nanosTimes n)).getD
    longest

/-! ## Backoff -/

/-- How often the delay is doubled at most. -/
def maxDoublings : Nat := 10

/-- What the base is multiplied with behind a failed attempt, counted from one. -/
def factor (attempt : Nat) : UInt32 := 1 <<< UInt32.ofNat (min (attempt - 1) maxDoublings)

/-- The delay behind a failed attempt, counted from one: the base, doubled for each attempt before
it. -/
def backoff (base : Delay) (attempt : Nat) : Delay := base.times (factor attempt)

/-! ## Reading -/

/-- A number with blanks around it. -/
def count? (cs : List Char) : Option Nat := Text.natural? Text.wordLimit (Text.trim cs)

/-- The delay that a text spells. -/
def ofText? (text : List Char) : Option Delay :=
  let cs := Text.trim text
  match Text.dropTail? "ms".toList cs with
  | some number => (count? number).map ofMillis
  | none =>
    match cs.getLast? with
    | none => none
    | some 's' | some 'S' => (count? cs.dropLast).map ofSeconds
    | some 'm' | some 'M' =>
      (count? cs.dropLast).map fun n => ofSeconds (min (n * 60) (Text.wordLimit - 1))
    | some _ => (count? cs).map ofSeconds

end Delay

end Runbook

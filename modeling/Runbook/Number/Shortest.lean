import Runbook.Number.Double
import Runbook.Text.Numeral

/-!
# Runbook.Number.Shortest

The shortest decimal that reads back as a given number in binary floating point. Among the decimals
with the fewest digits that round to the number, it is the one nearest to it.

The search goes through the decimal grids from the coarsest: on each it tests the two neighbours of
the number, which suffices, because if any point of a grid rounds to the number, one of the
neighbours does.
-/

namespace Runbook.Double

/-- A decimal, with the value `digits * 10 ^ exponent`. -/
structure Decimal where
  /-- The digits as a natural number. -/
  digits : Nat
  /-- The exponent of the power of ten that the digits are multiplied with. -/
  exponent : Int
deriving DecidableEq

/-- The number of decimal digits. -/
def digitCount (n : Nat) : Nat := (Nat.toDigits 10 n).length

/-- The largest `e` with `10 ^ e ≤ num / den`. -/
def decimalExponent (num den : Nat) : Int :=
  if den ≤ num then ((digitCount (num / den) : Int) - 1)
  else
    -- `den / num`, rounded up, is at most `10 ^ k` exactly if `10 ^ -k ≤ num / den`
    let inverse := (den + num - 1) / num
    Int.negOfNat (digitCount (inverse - 1))

/-- The magnitudes that round to a code, as the two ends of an interval over one denominator;
the ends belong to it exactly if the code is even. -/
structure Neighbourhood where
  /-- The lower end. -/
  low : Nat
  /-- The number itself. -/
  centre : Nat
  /-- The upper end. -/
  high : Nat
  /-- The common denominator. -/
  scale : Nat
  /-- Do the ends round to the number? -/
  closed : Bool

/-- The neighbourhood of the magnitude of a code. The gap below a power of two is half as wide as
the gap above it. -/
def neighbourhood (code : Nat) : Neighbourhood :=
  let (significand, places) := parts code
  let up := if places ≤ 1074 then 1 else twoTo (places - 1074)
  let scale := 4 * (if places ≤ 1074 then twoTo (1074 - places) else 1)
  let below := if significand = fractionLimit ∧ 0 < places then 1 else 2
  ⟨(4 * significand - below) * up, 4 * significand * up, (4 * significand + 2) * up, scale,
    code % 2 = 0⟩

/-- Does `digits * 10 ^ exponent` round to the number? -/
def Neighbourhood.holds (n : Neighbourhood) (digits : Nat) (exponent : Int) : Bool :=
  let value := digits * n.scale * tenTo exponent.toNat
  let shift := tenTo (-exponent).toNat
  if n.closed then n.low * shift ≤ value && value ≤ n.high * shift
  else n.low * shift < value && value < n.high * shift

/-- The better of the two neighbours on the grid of multiples of `10 ^ exponent`. -/
def Neighbourhood.onGrid? (n : Neighbourhood) (exponent : Int) : Option Decimal :=
  let step := n.scale * tenTo exponent.toNat
  let value := n.centre * tenTo (-exponent).toNat
  let floor := value / step
  let left := value - floor * step
  let right := (floor + 1) * step - value
  let upFirst := right < left || (right = left && floor % 2 = 1)
  let first := if upFirst then floor + 1 else floor
  let second := if upFirst then floor else floor + 1
  if n.holds first exponent then some ⟨first, exponent⟩
  else if n.holds second exponent then some ⟨second, exponent⟩
  else none

/-- The first grid that has a point in the neighbourhood; `fuel` counts the grids. -/
def Neighbourhood.search (n : Neighbourhood) (exponent : Int) : Nat → Decimal
  | 0 => ⟨n.centre / n.scale, 0⟩
  | fuel + 1 =>
    match n.onGrid? exponent with
    | some found => found
    | none => n.search (exponent - 1) fuel

/-- The shortest decimal that rounds to the magnitude of a code; seventeen digits always do. -/
def shortest (code : Nat) : Decimal :=
  if code = 0 then ⟨0, 0⟩
  else
    let n := neighbourhood code
    n.search (decimalExponent n.centre n.scale + 1) 19

end Runbook.Double

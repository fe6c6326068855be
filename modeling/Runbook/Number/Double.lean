import Runbook.Number.Power

/-!
# Runbook.Number.Double

Binary floating point numbers of 64 bits, as exact values. A finite number is a sign and a code:
the 63 bits below the sign bit, read as a natural number. Codes grow with the magnitudes that they
stand for, so comparing two numbers is comparing their signed codes (`ordinal`), and the two zeros
have one ordinal.

Every operation is the exact one on ratios followed by one rounding, to nearest, a tie going to the
even code (`Double.round`).
-/

namespace Runbook

/-- A number of 64 bits in binary floating point, by its sign and the code of its magnitude. -/
structure Double where
  /-- The sign bit. -/
  negative : Bool
  /-- The exponent field times 2 ^ 52 plus the fraction field. -/
  code : Nat
deriving DecidableEq

namespace Double

/-- How many fraction fields there are: two to the power of 52. -/
def fractionLimit : Nat := 0x10000000000000

/-- The code of infinity; finite magnitudes have smaller codes. -/
def infinityCode : Nat := 2047 * fractionLimit

/-- The significand and the number of binary places of a code, where the places count from the
smallest magnitude: the magnitude is `significand * 2 ^ places / 2 ^ 1074`. -/
def parts (code : Nat) : Nat × Nat :=
  let field := code / fractionLimit
  let fraction := code % fractionLimit
  if field = 0 then (fraction, 0) else (fractionLimit + fraction, field - 1)

/-- The magnitude of a code as a ratio of two natural numbers. -/
def ratio (code : Nat) : Nat × Nat :=
  let (significand, places) := parts code
  if places ≤ 1074 then (significand, twoTo (1074 - places))
  else (significand * twoTo (places - 1074), 1)

/-- The quotient of two natural numbers, rounded to nearest and a half to the even neighbour. -/
def divideToNearest (num den : Nat) : Nat :=
  let quotient := num / den
  let twice := 2 * (num % den)
  if twice < den then quotient
  else if twice = den then quotient + quotient % 2
  else quotient + 1

/-- The code of the magnitude nearest to `num / den`, and `infinityCode` or more if that is beyond
the finite ones. The significand has 53 bits except below the smallest normal magnitude; rounding
up to 54 bits carries into the exponent, as it should. -/
def round (num den : Nat) : Nat :=
  if num = 0 then 0
  else
    -- `places` or one more is the count of binary places at which the significand has 53 bits
    let places := num.log2 + 1074 - (den.log2 + 53)
    let scaled (places : Nat) : Nat × Nat := (num * twoTo 1074, den * twoTo places)
    let places :=
      if (scaled places).1 / (scaled places).2 < 2 * fractionLimit then places else places + 1
    let (n, d) := scaled places
    places * fractionLimit + divideToNearest n d

/-- Zero, with plus sign. -/
def zero : Double := ⟨false, 0⟩

/-- The position of a number in the numeric order. -/
def ordinal (x : Double) : Int := if x.negative then -(x.code : Int) else x.code

/-- Numeric equality, for which the two zeros are one number. -/
def equals (x y : Double) : Bool := x.ordinal == y.ordinal

end Double

end Runbook

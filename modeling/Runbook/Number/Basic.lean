import Runbook.Number.Shortest

/-!
# Runbook.Number.Basic

The numbers of a workflow value: an integer, or a finite number in binary floating point. The two
kinds stay apart, so the integer 1 and the float 1.0 are different numbers; `measure` is the common
scale on which both are compared.

An integer is written in decimal. A float is written with the fewest digits that read back: with a
point and at least one place from 1e-5 up to 1e16, and with a signed exponent outside that range.
-/

namespace Runbook

/-- A number: integers and floats are kept apart. -/
inductive Number where
  /-- An integer; readers make those from -2 ^ 63 up to 2 ^ 64 - 1. -/
  | int (i : Int)
  /-- A finite binary floating point number. -/
  | float (x : Double)
deriving DecidableEq

/-- A place on the scale of comparisons: the ordinal of a floating point number, infinities
included, or the number that is not comparable to any, not even to itself. -/
inductive Measure where
  /-- The result of reading `nan`. -/
  | undefined
  /-- A signed code. -/
  | at (ordinal : Int)
deriving DecidableEq

namespace Measure

/-- Numeric order, false if one side is undefined. -/
def le : Measure → Measure → Bool
  | .at x, .at y => x ≤ y
  | _, _ => false

/-- Strict numeric order, false if one side is undefined. -/
def lt : Measure → Measure → Bool
  | .at x, .at y => x < y
  | _, _ => false

end Measure

namespace Number

/-- The floating point number nearest to an integer in the range of `Number.int`. -/
def doubleOfInt (i : Int) : Double := ⟨i < 0, Double.round i.natAbs 1⟩

/-- The place of a number on the scale of comparisons. Integers beyond 2 ^ 53 share places with
their neighbours. -/
def measure : Number → Measure
  | .int i => .at (doubleOfInt i).ordinal
  | .float x => .at x.ordinal

/-- Equality within a kind. The two zeros of floats are equal; an integer never equals a float. -/
def same : Number → Number → Bool
  | .int i, .int j => i == j
  | .float x, .float y => x.equals y
  | _, _ => false

/-- Is the number one of the zeros? -/
def isZero : Number → Bool
  | .int i => i == 0
  | .float x => x.code == 0

/-! ## Writing -/

/-- The first position of the point, counted from the first digit, that is written in positional
notation, and the first one after those. -/
def positional : Int × Int := (-4, 17)

/-- The text of a magnitude. -/
def magnitudeText (code : Nat) : List Char :=
  let shortest := Double.shortest code
  let digits := Text.digits shortest.digits
  -- the point stands before the digit with this index
  let point : Int := digits.length + shortest.exponent
  if code = 0 then "0.0".toList
  else if positional.1 ≤ point ∧ point < positional.2 then
    if 0 ≤ shortest.exponent then
      digits ++ List.replicate shortest.exponent.toNat '0' ++ ".0".toList
    else if 0 < point then
      digits.take point.toNat ++ '.' :: digits.drop point.toNat
    else
      "0.".toList ++ List.replicate (-point).toNat '0' ++ digits
  else
    let fraction := if digits.length ≤ 1 then [] else '.' :: digits.drop 1
    let exponent := point - 1
    let sign := if exponent < 0 then '-' else '+'
    digits.take 1 ++ fraction ++ 'e' :: sign :: Text.digits exponent.natAbs

/-- The text of a number. -/
def chars : Number → List Char
  | .int i => Text.integerText i
  | .float x => if x.negative then '-' :: magnitudeText x.code else magnitudeText x.code

end Number

end Runbook

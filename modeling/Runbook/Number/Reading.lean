import Runbook.Number.Basic
import Runbook.Text.Search

/-!
# Runbook.Number.Reading

Reading numbers from text. `Measure.ofText?` reads the spellings of a floating point number that
stand in a string, rounding the exact decimal once. `Double.scale?` builds a float from the parts
of a numeral in a data text: a significand of one word and a power of ten, each rounded before they
are combined.
-/

namespace Runbook

/-! ## Significand and power of ten -/

namespace Double

/-- The product with, or the quotient by, the rounded power of ten `10 ^ |exponent|`. The result
has a code of `infinityCode` or more if it is too large. -/
def timesPower (code : Nat) (exponent : Int) : Nat :=
  let (num, den) := ratio code
  let (powerNum, powerDen) := ratio (round (tenTo exponent.natAbs) 1)
  if 0 ≤ exponent then round (num * powerNum) (den * powerDen)
  else round (num * powerDen) (den * powerNum)

/-- The largest power of ten that is a finite floating point number. -/
def largestPower : Nat := 308

/-- `code * 10 ^ exponent`, where an exponent below -308 is taken in steps; `steps` bounds their
number, and three make every word zero. -/
def scaleCode? (code : Nat) (exponent : Int) : Nat → Option Nat
  | 0 => some 0
  | steps + 1 =>
    if exponent.natAbs ≤ largestPower then
      let scaled := timesPower code exponent
      if scaled < infinityCode then some scaled else none
    else if code = 0 then some 0
    else if 0 ≤ exponent then none
    else scaleCode? (timesPower code (-largestPower)) (exponent + largestPower) steps

/-- The float for a significand of one word and a decimal exponent, unless it is too large. -/
def scale? (negative : Bool) (significand : Nat) (exponent : Int) : Option Double :=
  (scaleCode? (round significand 1) exponent 4).map fun code => ⟨negative, code⟩

/-- The code of the magnitude nearest to `digits * 10 ^ exponent`; `infinityCode` if that is too
large. Exponents far outside the range of the format are decided without computing the power. -/
def codeOfDecimal (digits : Nat) (exponent : Int) : Nat :=
  if digits = 0 then 0
  else if 400 < exponent then infinityCode
  else if digitCount digits + exponent < -400 then 0
  else if 0 ≤ exponent then min (round (digits * tenTo exponent.toNat) 1) infinityCode
  else min (round digits (tenTo (-exponent).toNat)) infinityCode

end Double

/-! ## Numbers in strings -/

/-- The parts of a decimal: sign, digits, and exponent. -/
structure DecimalParts where
  /-- All digits, without the point. -/
  digits : List Char
  /-- The power of ten that the digits are multiplied with. -/
  exponent : Int

/-- An optional sign and what follows it. -/
def splitSign : List Char → Bool × List Char
  | '-' :: cs => (true, cs)
  | '+' :: cs => (false, cs)
  | cs => (false, cs)

/-- The value of an exponent part, which is nothing or an `e` with an optional sign and digits. -/
def exponent? : List Char → Option Int
  | [] => some 0
  | c :: cs =>
    if c = 'e' ∨ c = 'E' then
      let (negative, digits) := splitSign cs
      if !digits.isEmpty && digits.all Char.isDigit then
        let n := Text.valueOfDigits digits
        some (if negative then -(n : Int) else n)
      else none
    else none

/-- Digits with an optional point among or beside them and an optional exponent; at least one digit
stands before the exponent. -/
def decimalParts? (cs : List Char) : Option DecimalParts :=
  let whole := cs.takeWhile Char.isDigit
  let rest := cs.dropWhile Char.isDigit
  let (places, rest) :=
    match rest with
    | '.' :: more => (more.takeWhile Char.isDigit, more.dropWhile Char.isDigit)
    | _ => ([], rest)
  if whole.isEmpty && places.isEmpty then none
  else (exponent? rest).map fun e => ⟨whole ++ places, e - places.length⟩

namespace Measure

/-- The place of a signed code. -/
def ofCode (negative : Bool) (code : Nat) : Measure :=
  .at (if negative then -(code : Int) else code)

/-- A number with an optional sign: a decimal, or a word for infinity or for no number in any
case. -/
def ofText? (cs : List Char) : Option Measure :=
  let (negative, rest) := splitSign cs
  let word := String.ofList (rest.map Char.toLower)
  if word = "inf" ∨ word = "infinity" then some (ofCode negative Double.infinityCode)
  else if word = "nan" then some .undefined
  else (decimalParts? rest).map fun parts =>
    ofCode negative (Double.codeOfDecimal (Text.valueOfDigits parts.digits) parts.exponent)

end Measure

end Runbook

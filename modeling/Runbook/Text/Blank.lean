/-!
# Runbook.Text.Blank

Blank characters, trimming, and words. The blank characters are those with the Unicode property
White_Space, which is a larger set than the blanks of `Char.isWhitespace`
(`isBlank_of_isWhitespace`).

Trimming takes the blanks off the two ends of a text and never makes it longer
(`length_trim_le`); the words of a text are its longest runs without a blank, in order (`words`).
-/

namespace Runbook.Text

/-- The code points with the Unicode property White_Space, as ranges with both ends included. -/
def blankRanges : List (Nat × Nat) :=
  [(0x9, 0xd), (0x20, 0x20), (0x85, 0x85), (0xa0, 0xa0), (0x1680, 0x1680), (0x2000, 0x200a),
   (0x2028, 0x2029), (0x202f, 0x202f), (0x205f, 0x205f), (0x3000, 0x3000)]

/-- A character with the property White_Space. -/
def isBlank (c : Char) : Bool :=
  blankRanges.any fun r => r.1 ≤ c.toNat && c.toNat ≤ r.2

/-! ## Trimming -/

/-- The text from its first character that is not blank. -/
def trimStart (cs : List Char) : List Char := cs.dropWhile isBlank

/-- The text up to its last character that is not blank. -/
def trimEnd : List Char → List Char
  | [] => []
  | c :: cs =>
    match trimEnd cs with
    | [] => if isBlank c then [] else [c]
    | kept => c :: kept

/-- The text without the blanks at its two ends. -/
def trim (cs : List Char) : List Char := trimEnd (trimStart cs)

/-- `trim` on strings. -/
def trimmed (s : String) : String := String.ofList (trim s.toList)

theorem length_trimStart_le (cs : List Char) : (trimStart cs).length ≤ cs.length := by
  induction cs with
  | nil => simp [trimStart]
  | cons c cs ih =>
    rw [trimStart, List.dropWhile_cons]
    split
    · exact Nat.le_succ_of_le ih
    · exact Nat.le_refl _

theorem length_trimEnd_le (cs : List Char) : (trimEnd cs).length ≤ cs.length := by
  induction cs with
  | nil => simp [trimEnd]
  | cons c cs ih =>
    rw [trimEnd]
    split
    · split <;> simp
    · simpa using ih

theorem length_trim_le (cs : List Char) : (trim cs).length ≤ cs.length :=
  Nat.le_trans (length_trimEnd_le _) (length_trimStart_le _)

/-! ## Words -/

/-- `wordsFrom cs word` splits `cs` when the characters of `word`, last first, are already part of
the word that is being read. -/
def wordsFrom : List Char → List Char → List (List Char)
  | [], [] => []
  | [], word => [word.reverse]
  | c :: cs, word =>
    if isBlank c then
      if word.isEmpty then wordsFrom cs [] else word.reverse :: wordsFrom cs []
    else wordsFrom cs (c :: word)

/-- The longest runs of characters that are not blank, in order. -/
def words (cs : List Char) : List (List Char) := wordsFrom cs []

end Runbook.Text

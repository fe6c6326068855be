import Runbook.Number.Reading
import Runbook.Run.Registry
import Runbook.Tools.Arguments

/-!
# Runbook.Tools.Texts

The built-in capabilities on texts. They change nothing in the world, so each is a function of its
arguments.
-/

namespace Runbook.Tools

/-- A capability that only looks at its arguments. -/
def pureTool {World : Type} (description : String) (act : Entries → Except ArgumentError Report) :
    Capability World where
  description := description
  invoke args world :=
    match act args with
    | .ok report => (.ok report, world)
    | .error e => (.error e.message, world)

/-! ## Echo and failure -/

/-- The `text` argument as it is. -/
def echo (args : Entries) : Report := .succeeded ((Entries.get? "text" args).getD .null)

/-- A failure with the text of the `message` argument. -/
def fail (args : Entries) : Report :=
  .failed (.string (((Entries.get? "message" args).map Value.display).getD "failed"))

/-! ## Statistics -/

/-- How many words are read in a minute. -/
def wordsPerMinute : Nat := 200

/-- The product of two magnitudes, by their codes. -/
def timesCode (x y : Nat) : Nat :=
  let (a, b) := Double.ratio x
  let (c, d) := Double.ratio y
  Double.round (a * c) (b * d)

/-- The quotient of two magnitudes, by their codes. -/
def overCode (x y : Nat) : Nat :=
  let (a, b) := Double.ratio x
  let (c, d) := Double.ratio y
  Double.round (a * d) (b * c)

/-- The hundredths of a minute that it takes to read some words. The steps are those of floating
point arithmetic, and half a hundredth is rounded up. -/
def readingHundredths (words : Nat) : Nat :=
  let hundred := Double.round 100 1
  let minutes := overCode (Double.round words 1) (Double.round wordsPerMinute 1)
  let (num, den) := Double.ratio (timesCode minutes hundred)
  (2 * num + den) / (2 * den)

/-- Hundredths as a decimal with two places. -/
def hundredthsText (n : Nat) : List Char :=
  Text.digits (n / 100) ++ ['.', Nat.digitChar (n / 10 % 10), Nat.digitChar (n % 10)]

/-- The numbers of words and characters of the `text` argument, and the time to read it. -/
def analyze (args : Entries) : Except ArgumentError Report :=
  (requiredText args "text").map fun text =>
    let words := (Text.words text.toList).length
    let characters := text.toList.length
    let hundredths := readingHundredths words
    let summary := "words=" ++ toString words ++ ", characters=" ++ toString characters ++
      ", reading_time_minutes=" ++ String.ofList (hundredthsText hundredths)
    ⟨.string summary, true, some [("word_count", .ofNat words),
      ("character_count", .ofNat characters),
      ("reading_time_minutes", .number (.float ⟨false, Double.round hundredths 100⟩))]⟩

/-! ## Summaries -/

/-- The least number of words that a summary keeps. -/
def minSummaryWords : Nat := 20

/-- The number of words that a summary keeps if none is given. -/
def defaultSummaryWords : Nat := 512

/-- Words with a blank between them. -/
def joinWords : List (List Char) → List Char
  | [] => []
  | [word] => word
  | word :: words => word ++ ' ' :: joinWords words

/-- The first words of a text, with three points behind them if there are more. -/
def summary (limit : Nat) (text : List Char) : List Char :=
  let words := Text.words text
  joinWords (words.take limit) ++ (if limit < words.length then "...".toList else [])

/-- A summary of the `text` argument. -/
def summarize (args : Entries) : Except ArgumentError Report := do
  let text ← requiredText args "text"
  let limit := max ((← optionalCount args "max_tokens").getD defaultSummaryWords) minSummaryWords
  let words := Text.words text.toList
  return ⟨.string (String.ofList (summary limit text.toList)), true,
    some [("original_words", .ofNat words.length),
      ("summary_words", .ofNat (words.take limit).length),
      ("style", (Entries.get? "style" args).getD .null)]⟩

end Runbook.Tools

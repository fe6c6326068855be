import Runbook.Number.Reading
import Runbook.Value.Fault
import Runbook.Value.Basic

/-!
# Runbook.Value.Reading

Reading a data text. `Value.read` takes a whole text and gives its value or the first fault in it
with the place. Lists and mappings nest at most `depthLimit` deep. A key that occurs twice in a
mapping keeps its first place and its last value.

A reader of a part takes the unread text and gives the part and what follows it. The functions on
nested parts count steps: `stepsFor` gives them more steps than any text of that length can use.
-/

namespace Runbook

/-- A part of a text and the text that follows it. -/
abbrev Reading (α : Type) := Except Fault (α × List Char)

namespace Reading

/-- A fault at the given unread text, `ahead` bytes into it. -/
def fault {α : Type} (cause : FaultCause) (rest : List Char) (ahead : Nat) : Except Fault α :=
  .error ⟨cause, byteLength rest - ahead⟩

/-- A blank between the tokens of a data text. -/
def isGap (c : Char) : Bool := c = ' ' || c = '\n' || c = '\t' || c = '\r'

/-- The text from its first token. -/
def skipGaps (cs : List Char) : List Char := cs.dropWhile isGap

/-- The rest of a word, character by character. -/
def word : List Char → List Char → Except Fault (List Char)
  | [], cs => .ok cs
  | _ :: _, [] => fault .endInValue [] 0
  | w :: ws, c :: cs => if w = c then word ws cs else fault .expectedWord (c :: cs) 1

/-! ## Strings -/

/-- The value of a hexadecimal digit. -/
def hexDigit? (c : Char) : Option Nat :=
  let n := c.toNat
  if 48 ≤ n ∧ n ≤ 57 then some (n - 48)
  else if 97 ≤ n ∧ n ≤ 102 then some (n - 87)
  else if 65 ≤ n ∧ n ≤ 70 then some (n - 55)
  else none

/-- The value of four hexadecimal digits. -/
def hexFour? (a b c d : Char) : Option Nat := do
  some ((((← hexDigit? a) * 16 + (← hexDigit? b)) * 16 + (← hexDigit? c)) * 16 + (← hexDigit? d))

/-- The fault of four bytes that are not all hexadecimal digits, or of fewer bytes. -/
def hexFault {α : Type} (cs : List Char) : Except Fault α :=
  if byteLength cs < 4 then fault .endInString [] 0 else fault .badEscape cs 4

/-- The character that a backslash and a letter stand for. -/
def escaped? (c : Char) : Option Char :=
  if c = '"' ∨ c = '\\' ∨ c = '/' then some c
  else if c = 'b' then some (Char.ofNat 8)
  else if c = 'f' then some (Char.ofNat 12)
  else if c = 'n' then some '\n'
  else if c = 'r' then some '\r'
  else if c = 't' then some '\t'
  else none

/-- The second half of a pair of surrogates and the character that the pair stands for; `high` is
the first half. -/
def pairedChar (high : Nat) (cs : List Char) : Reading Char :=
  match cs with
  | [] => fault .endInString [] 0
  | '\\' :: [] => fault .endInString [] 0
  | '\\' :: 'u' :: a :: b :: c :: d :: rest =>
    match hexFour? a b c d with
    | none => hexFault (a :: b :: c :: d :: rest)
    | some low =>
      if 0xdc00 ≤ low ∧ low ≤ 0xdfff then
        .ok (Char.ofNat ((high - 0xd800) * 0x400 + (low - 0xdc00) + 0x10000), rest)
      else fault .loneSurrogate rest 0
  | '\\' :: 'u' :: short => hexFault short
  | '\\' :: rest => fault .halfSurrogatePair rest 1
  | rest => fault .halfSurrogatePair rest 1

/-- The character that a `u` escape stands for, from the text behind the `u`. -/
def hexChar (cs : List Char) : Reading Char :=
  match cs with
  | a :: b :: c :: d :: rest =>
    match hexFour? a b c d with
    | none => hexFault cs
    | some n =>
      if 0xdc00 ≤ n ∧ n ≤ 0xdfff then fault .loneSurrogate rest 0
      else if 0xd800 ≤ n ∧ n ≤ 0xdbff then pairedChar n rest
      else .ok (Char.ofNat n, rest)
  | short => hexFault short

/-- The rest of a string behind its opening quote; `read` are the characters before, last first. -/
def stringFrom (read : List Char) : Nat → List Char → Reading String
  | 0, cs => fault .endInString cs 0
  | _ + 1, [] => fault .endInString [] 0
  | steps + 1, c :: cs =>
    if c = '"' then .ok (String.ofList read.reverse, cs)
    else if c = '\\' then
      match cs with
      | [] => fault .endInString [] 0
      | 'u' :: cs =>
        match hexChar cs with
        | .error f => .error f
        | .ok (c, rest) => stringFrom (c :: read) steps rest
      | e :: rest =>
        match escaped? e with
        | none => fault .badEscape (e :: rest) 1
        | some c => stringFrom (c :: read) steps rest
    else if c.toNat < 32 then fault .controlCharacter cs 0
    else stringFrom (c :: read) steps cs

/-- A string behind its opening quote. -/
def string (cs : List Char) : Reading String := stringFrom [] (cs.length + 1) cs

/-! ## Numbers -/

/-- The value of the longest run of digits that stays below `limit`, and the digits that do not
fit; `value` is the value of the digits before. -/
def fitting (limit value : Nat) : List Char → Nat × List Char
  | [] => (value, [])
  | c :: cs =>
    let next := value * 10 + (c.toNat - 48)
    if next < limit then fitting limit next cs else (value, c :: cs)

/-- The float of a significand and an exponent. -/
def scaled (negative : Bool) (significand : Nat) (exponent : Int) (rest : List Char) :
    Reading Number :=
  match Double.scale? negative significand exponent with
  | some x => .ok (.float x, rest)
  | none => fault .numberTooLarge rest 0

/-- The exponent part, behind its letter; `start` is the exponent that comes from the digits before
it. -/
def exponent (negative : Bool) (significand : Nat) (start : Int) (cs : List Char) :
    Reading Number :=
  let (down, cs) := splitSign cs
  match cs with
  | [] => fault .endInValue [] 0
  | c :: _ =>
    if c.isDigit then
      let rest := cs.dropWhile Char.isDigit
      match fitting 0x80000000 0 (cs.takeWhile Char.isDigit) with
      | (n, []) => scaled negative significand (start + (if down then -(n : Int) else n)) rest
      | (_, unfit) =>
        if significand ≠ 0 ∧ ¬down then fault .numberTooLarge (unfit ++ rest) 1
        else .ok (.float ⟨negative, 0⟩, rest)
    else fault .badNumber cs 1

/-- What may follow the digits of a float: an exponent part, or nothing. -/
def scaledTail (negative : Bool) (significand : Nat) (start : Int) : List Char → Reading Number
  | 'e' :: cs => exponent negative significand start cs
  | 'E' :: cs => exponent negative significand start cs
  | cs => scaled negative significand start cs

/-- The decimal places, behind the point. Digits that do not fit the significand are dropped. -/
def places (negative : Bool) (significand : Nat) (start : Int) (cs : List Char) : Reading Number :=
  let digits := cs.takeWhile Char.isDigit
  let rest := cs.dropWhile Char.isDigit
  if digits.isEmpty then
    if rest.isEmpty then fault .endInValue [] 0 else fault .badNumber rest 1
  else
    let (significand, unfit) := fitting Text.wordLimit significand digits
    scaledTail negative significand (start - (digits.length - unfit.length : Nat)) rest

/-- An integer whose digits all fit one word. A negative zero, and a negative number below the
range of a signed word, is a float. -/
def whole (negative : Bool) (n : Nat) : Number :=
  if ¬negative then .int n
  else if n = 0 ∨ Text.signedLimit < n then .float ⟨true, Double.round n 1⟩
  else .int (-(n : Int))

/-- A number behind its sign. -/
def unsigned (negative : Bool) (cs : List Char) : Reading Number :=
  match cs with
  | [] => fault .endInValue [] 0
  | c :: rest =>
    if c = '0' ∧ rest.head?.any Char.isDigit then fault .badNumber rest 1
    else if c.isDigit then
      let digits := cs.takeWhile Char.isDigit
      let rest := cs.dropWhile Char.isDigit
      match fitting Text.wordLimit 0 digits, rest with
      | (n, []), '.' :: rest => places negative n 0 rest
      | (n, []), 'e' :: rest => exponent negative n 0 rest
      | (n, []), 'E' :: rest => exponent negative n 0 rest
      | (n, []), rest => .ok (whole negative n, rest)
      | (n, unfit), '.' :: rest => places negative n unfit.length rest
      | (n, unfit), rest => scaledTail negative n unfit.length rest
    else fault .badNumber cs 1

/-- A number. -/
def number : List Char → Reading Number
  | '-' :: cs => unsigned true cs
  | cs => unsigned false cs

/-! ## Values -/

/-- The deepest nesting of lists and mappings that is read. -/
def depthLimit : Nat := 127

/-- A number of steps that no text of the same length uses up. -/
def stepsFor (cs : List Char) : Nat := 2 * cs.length + 2

/-- A colon and what follows it. -/
def colon (cs : List Char) : Except Fault (List Char) :=
  match skipGaps cs with
  | [] => fault .endInObject [] 0
  | ':' :: rest => .ok rest
  | rest => fault .expectedColon rest 1

/-- A key behind its opening quote, and its colon. -/
def key (cs : List Char) : Except Fault (String × List Char) := do
  let (k, rest) ← string cs
  let rest ← colon rest
  return (k, rest)

mutual

/-- A value; `depth` levels of nesting are left. -/
def value (depth : Nat) : Nat → List Char → Reading Value
  | 0, cs => fault .expectedValue cs 0
  | steps + 1, cs =>
    match skipGaps cs with
    | [] => fault .endInValue [] 0
    | 'n' :: rest => (word "ull".toList rest).map fun rest => (.null, rest)
    | 't' :: rest => (word "rue".toList rest).map fun rest => (.bool true, rest)
    | 'f' :: rest => (word "alse".toList rest).map fun rest => (.bool false, rest)
    | '"' :: rest => (string rest).map fun (s, rest) => (.string s, rest)
    | '[' :: rest =>
      match depth with
      | 0 => fault .tooDeep ('[' :: rest) 1
      | depth + 1 =>
        match skipGaps rest with
        | [] => fault .endInList [] 0
        | ']' :: rest => .ok (.array [], rest)
        | rest => (items depth steps rest).map fun (xs, rest) => (.array xs, rest)
    | '{' :: rest =>
      match depth with
      | 0 => fault .tooDeep ('{' :: rest) 1
      | depth + 1 =>
        match skipGaps rest with
        | [] => fault .endInObject [] 0
        | '}' :: rest => .ok (.object [], rest)
        | '"' :: rest =>
          (members depth steps rest).map fun (es, rest) => (.object (Entries.ofBindings es), rest)
        | rest => fault .keyNotString rest 1
    | c :: rest =>
      if c = '-' ∨ c.isDigit then (number (c :: rest)).map fun (n, rest) => (.number n, rest)
      else fault .expectedValue (c :: rest) 1

/-- The items of a list up to its closing bracket; there is at least one. -/
def items (depth : Nat) : Nat → List Char → Except Fault (List Value × List Char)
  | 0, cs => fault .expectedValue cs 0
  | steps + 1, cs => do
    let (x, rest) ← value depth steps cs
    match skipGaps rest with
    | [] => fault .endInList [] 0
    | ']' :: rest => return ([x], rest)
    | ',' :: rest =>
      match skipGaps rest with
      | [] => fault .endInValue [] 0
      | ']' :: rest => fault .trailingComma (']' :: rest) 1
      | rest =>
        let (xs, rest) ← items depth steps rest
        return (x :: xs, rest)
    | rest => fault .expectedCommaOrBracket rest 1

/-- The entries of a mapping up to its closing brace, from behind the quote that opens the first
key. -/
def members (depth : Nat) : Nat → List Char → Except Fault (List (String × Value) × List Char)
  | 0, cs => fault .expectedValue cs 0
  | steps + 1, cs => do
    let (k, rest) ← key cs
    let (v, rest) ← value depth steps rest
    match skipGaps rest with
    | [] => fault .endInObject [] 0
    | '}' :: rest => return ([(k, v)], rest)
    | ',' :: rest =>
      match skipGaps rest with
      | [] => fault .endInValue [] 0
      | '"' :: rest =>
        let (es, rest) ← members depth steps rest
        return ((k, v) :: es, rest)
      | '}' :: rest => fault .trailingComma ('}' :: rest) 1
      | rest => fault .keyNotString rest 1
    | rest => fault .expectedCommaOrBrace rest 1

end

/-- A part that is followed by nothing but gaps. -/
def alone {α : Type} : Reading α → Except Fault α
  | .error fault => .error fault
  | .ok (x, rest) =>
    match skipGaps rest with
    | [] => .ok x
    | rest => fault .trailingText rest 1

/-- Reads a whole text. -/
def fromText {α : Type} (reader : List Char → Reading α) (s : String) : Except LocatedFault α :=
  match alone (reader s.toList) with
  | .ok x => .ok x
  | .error fault => .error (fault.locate s.toList)

end Reading

/-- The value of a data text. -/
def Value.read (s : String) : Except LocatedFault Value :=
  Reading.fromText (fun cs => Reading.value Reading.depthLimit (Reading.stepsFor cs) cs) s

end Runbook

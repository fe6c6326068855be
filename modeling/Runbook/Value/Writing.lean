import Runbook.Value.Basic

/-!
# Runbook.Value.Writing

The data text of a value. `Value.chars` is the compact form, without any blank between tokens;
`Value.prettyChars` puts every item and entry on a line of its own, indented by two blanks a level.
`Value.display` is the form in which a value stands inside other text: a string as it is, null as
nothing, and everything else compact.
-/

namespace Runbook

/-! ## Strings -/

/-- The two hexadecimal digits of a number below 256. -/
def hexPair (n : Nat) : List Char := [Nat.digitChar (n / 16), Nat.digitChar (n % 16)]

/-- A character inside a quoted string. Quotes, backslashes and control characters are escaped. -/
def escapeChar (c : Char) : List Char :=
  if c = '"' then "\\\"".toList
  else if c = '\\' then "\\\\".toList
  else if c = '\n' then "\\n".toList
  else if c = '\t' then "\\t".toList
  else if c = '\r' then "\\r".toList
  else if c.toNat = 8 then "\\b".toList
  else if c.toNat = 12 then "\\f".toList
  else if c.toNat < 32 then "\\u00".toList ++ hexPair c.toNat
  else [c]

/-- A text in double quotes. -/
def quoted (s : String) : List Char := '"' :: s.toList.flatMap escapeChar ++ ['"']

namespace Value

/-! ## Compact text -/

/-- The literal of a boolean. -/
def boolText (b : Bool) : List Char := if b then "true".toList else "false".toList

mutual

/-- The compact text of a value. -/
def chars : Value → List Char
  | .null => "null".toList
  | .bool b => boolText b
  | .number n => n.chars
  | .string s => quoted s
  | .array [] => "[]".toList
  | .array (x :: xs) => '[' :: chars x ++ itemsTail xs ++ [']']
  | .object [] => "\x7b\x7d".toList
  | .object ((k, v) :: es) => '{' :: quoted k ++ ':' :: chars v ++ entriesTail es ++ ['}']
termination_by structural v => v

/-- The items after the first one, each with the comma before it. -/
def itemsTail : List Value → List Char
  | [] => []
  | x :: xs => ',' :: chars x ++ itemsTail xs
termination_by structural xs => xs

/-- The entries after the first one, each with the comma before it. -/
def entriesTail : List (String × Value) → List Char
  | [] => []
  | (k, v) :: es => ',' :: quoted k ++ ':' :: chars v ++ entriesTail es
termination_by structural es => es

end

/-- The compact text of a value as a string. -/
def text (v : Value) : String := String.ofList v.chars

/-- The text of a value inside other text. -/
def display : Value → String
  | .string s => s
  | .null => ""
  | v => v.text

/-! ## Indented text -/

/-- A line break and the indentation of a level. -/
def newline (level : Nat) : List Char := '\n' :: List.replicate (2 * level) ' '

mutual

/-- The indented text of a value that starts on a line of the given level. -/
def prettyChars (level : Nat) : Value → List Char
  | .array [] => "[]".toList
  | .array (x :: xs) =>
    '[' :: newline (level + 1) ++ prettyChars (level + 1) x ++ prettyItems (level + 1) xs ++
      newline level ++ [']']
  | .object [] => "\x7b\x7d".toList
  | .object ((k, v) :: es) =>
    '{' :: newline (level + 1) ++ quoted k ++ ": ".toList ++ prettyChars (level + 1) v ++
      prettyEntries (level + 1) es ++ newline level ++ ['}']
  | .null => "null".toList
  | .bool b => boolText b
  | .number n => n.chars
  | .string s => quoted s
termination_by structural v => v

/-- The items after the first one, each after a comma on its own line. -/
def prettyItems (level : Nat) : List Value → List Char
  | [] => []
  | x :: xs => ',' :: newline level ++ prettyChars level x ++ prettyItems level xs
termination_by structural xs => xs

/-- The entries after the first one, each after a comma on its own line. -/
def prettyEntries (level : Nat) : List (String × Value) → List Char
  | [] => []
  | (k, v) :: es =>
    ',' :: newline level ++ quoted k ++ ": ".toList ++ prettyChars level v ++
      prettyEntries level es
termination_by structural es => es

end

/-- The indented text of a value. -/
def pretty (v : Value) : String := String.ofList (v.prettyChars 0)

end Value

end Runbook

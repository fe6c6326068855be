/-!
# Runbook.Yaml.Cursor

A place in a YAML text: the unread characters with their line and column, and the classes of
characters that decide where tokens end.
-/

namespace Runbook.Yaml

/-- The unread text and the place where it starts, counted from zero. -/
structure Cursor where
  /-- The unread characters. -/
  rest : List Char
  /-- The line. -/
  line : Nat
  /-- The characters before it on the line. -/
  column : Nat
  /-- The characters before it in the text. -/
  index : Nat

/-- A line break: the two ASCII ones, next line, and the line and paragraph separators. -/
def isBreak (c : Char) : Bool :=
  c = '\n' || c = '\r' || c.toNat = 0x85 || c.toNat = 0x2028 || c.toNat = 0x2029

/-- A blank or a tab. -/
def isSpace (c : Char) : Bool := c = ' ' || c = '\t'

/-- Does the text end here, or go on with a break? -/
def atBreak : List Char → Bool
  | [] => true
  | c :: _ => isBreak c

/-- Does the text end here, or go on with a space or a break? -/
def atGap : List Char → Bool
  | [] => true
  | c :: _ => isSpace c || isBreak c

/-- An indicator of a list or mapping in brackets. -/
def isFlowIndicator (c : Char) : Bool :=
  c = ',' || c = '[' || c = ']' || c = '{' || c = '}'

/-- Three dashes or dots at the start of a line with a gap behind them, which start or end a
document. -/
def atDocumentMark (cursor : Cursor) : Bool :=
  cursor.column = 0 &&
    match cursor.rest with
    | '-' :: '-' :: '-' :: rest => atGap rest
    | '.' :: '.' :: '.' :: rest => atGap rest
    | _ => false

namespace Cursor

/-- The start of a text. -/
def start (cs : List Char) : Cursor := ⟨cs, 0, 0, 0⟩

/-- The place behind some characters of the same line. -/
def skip (cursor : Cursor) (n : Nat) : Cursor :=
  { cursor with rest := cursor.rest.drop n, column := cursor.column + n, index := cursor.index + n }

/-- The place behind a line break, and the characters that the break stands for. -/
def skipBreak (cursor : Cursor) : List Char × Cursor :=
  match cursor.rest with
  | '\r' :: '\n' :: rest => (['\n'], ⟨rest, cursor.line + 1, 0, cursor.index + 2⟩)
  | c :: rest =>
    if isBreak c then
      (if c.toNat = 0x2028 ∨ c.toNat = 0x2029 then [c] else ['\n'],
        ⟨rest, cursor.line + 1, 0, cursor.index + 1⟩)
    else ([], cursor)
  | [] => ([], cursor)

/-- The place behind the characters, on this line, for which a test holds. -/
def skipWhile (cursor : Cursor) (test : Char → Bool) : Cursor :=
  cursor.skip (cursor.rest.takeWhile test).length

end Cursor

end Runbook.Yaml

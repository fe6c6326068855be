/-!
# Runbook.Value.Fault

What can be wrong with a data text, and where. A reader stops at the first fault, which it notes as
a cause and as the number of bytes that were still unread; `Fault.locate` turns that number into a
line and a column, both counted from one place before the first byte that was not accepted.
-/

namespace Runbook

/-- What can be wrong with a data text. -/
inductive FaultCause where
  | endInList
  | endInObject
  | endInString
  | endInValue
  | expectedColon
  | expectedCommaOrBracket
  | expectedCommaOrBrace
  | expectedWord
  | expectedValue
  | badEscape
  | badNumber
  | numberTooLarge
  | controlCharacter
  | keyNotString
  | loneSurrogate
  | trailingComma
  | trailingText
  | halfSurrogatePair
  | tooDeep
  /-- A value that is well formed and does not fit the record that is read. -/
  | unfit (reason : String)
deriving DecidableEq

/-- The description of a cause. -/
def FaultCause.message : FaultCause → String
  | endInList => "EOF while parsing a list"
  | endInObject => "EOF while parsing an object"
  | endInString => "EOF while parsing a string"
  | endInValue => "EOF while parsing a value"
  | expectedColon => "expected `:`"
  | expectedCommaOrBracket => "expected `,` or `]`"
  | expectedCommaOrBrace => "expected `,` or `\x7d`"
  | expectedWord => "expected ident"
  | expectedValue => "expected value"
  | badEscape => "invalid escape"
  | badNumber => "invalid number"
  | numberTooLarge => "number out of range"
  | controlCharacter => "control character (\\u0000-\\u001F) found while parsing a string"
  | keyNotString => "key must be a string"
  | loneSurrogate => "lone leading surrogate in hex escape"
  | trailingComma => "trailing comma"
  | trailingText => "trailing characters"
  | halfSurrogatePair => "unexpected end of hex escape"
  | tooDeep => "recursion limit exceeded"
  | unfit reason => reason

/-- A cause and the number of bytes that are left behind its place. -/
structure Fault where
  /-- What is wrong. -/
  cause : FaultCause
  /-- The bytes of the text behind the place. -/
  left : Nat
deriving DecidableEq

/-- The length of a text in bytes of UTF-8. -/
def byteLength : List Char → Nat
  | [] => 0
  | c :: cs => c.utf8Size + byteLength cs

/-- A fault with its place in the text. -/
structure LocatedFault where
  /-- What is wrong. -/
  cause : FaultCause
  /-- The line, counted from one. -/
  line : Nat
  /-- The bytes between the start of the line and the place. -/
  column : Nat
deriving DecidableEq

/-- The line and column that `bytes` bytes further into a text lead to. -/
def advance (line column : Nat) : List Char → Nat → Nat × Nat
  | [], _ => (line, column)
  | c :: cs, bytes =>
    if bytes < c.utf8Size then (line, column + bytes)
    else if c = '\n' then advance (line + 1) 0 cs (bytes - c.utf8Size)
    else advance line (column + c.utf8Size) cs (bytes - c.utf8Size)

/-- The place of a fault in the text in which it was found. -/
def Fault.locate (text : List Char) (fault : Fault) : LocatedFault :=
  let (line, column) := advance 1 0 text (byteLength text - fault.left)
  ⟨fault.cause, line, column⟩

/-- The cause, followed by the place. -/
def LocatedFault.message (fault : LocatedFault) : String :=
  fault.cause.message ++ " at line " ++ toString fault.line ++ " column " ++ toString fault.column

end Runbook

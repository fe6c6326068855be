import Runbook.Text.Blank
import Runbook.Yaml.Scalar

/-!
# Runbook.Yaml.Token

The tokens of a YAML text. Indentation is turned into tokens that open and close block collections,
so the structure of the text can be read off the tokens alone (`Token.ofText?`).

A mapping is recognised at the colon behind its key. The place where a key could start is therefore
remembered (`Candidate`), and the tokens that announce the key are put in there once the colon is
found. A key stands on one line and is at most 1024 characters long.
-/

namespace Runbook.Yaml

/-- A part of a YAML text. -/
inductive Token where
  /-- A directive for the document that follows. -/
  | directive
  | documentStart
  | documentEnd
  | blockSequenceStart
  | blockMappingStart
  /-- The end of a block collection. -/
  | blockEnd
  | flowSequenceStart
  | flowSequenceEnd
  | flowMappingStart
  | flowMappingEnd
  /-- The dash before an item. -/
  | blockEntry
  /-- The comma behind an item. -/
  | flowEntry
  | key
  | value
  | alias (name : String)
  | anchor (name : String)
  | tag (name : String)
  /-- A scalar; only plain ones are more than strings. -/
  | scalar (text : String) (isPlain : Bool)
deriving DecidableEq

/-- A place at which a key may have started. -/
structure Candidate where
  /-- Must there be a key, for the indentation to make sense? -/
  required : Bool
  /-- The number of tokens before it. -/
  tokens : Nat
  /-- Its place in the text. -/
  cursor : Cursor

/-- What is known behind some tokens. -/
structure Scanner where
  /-- The unread text. -/
  cursor : Cursor
  /-- The tokens so far. -/
  tokens : Array Token
  /-- The column of the innermost block collection, if there is one. -/
  indent : Option Nat
  /-- The columns of the collections around it, innermost first. -/
  outer : List (Option Nat)
  /-- May a key start here? -/
  keyAllowed : Bool
  /-- The candidate outside brackets and those inside each open pair, innermost first. -/
  candidates : List (Option Candidate)

namespace Scanner

/-- The scanner at the start of a text. -/
def start (cs : List Char) : Scanner := ⟨.start cs, #[], none, [], true, [none]⟩

variable (s : Scanner)

/-- Is the place inside brackets? -/
def inFlow : Bool := 1 < s.candidates.length

/-- Adds a token. -/
def push (token : Token) : Scanner := { s with tokens := s.tokens.push token }

/-- Moves on by some characters of the line. -/
def skip (n : Nat) : Scanner := { s with cursor := s.cursor.skip n }

/-- Closes the block collections that start right of a column; without a column, all. -/
def unrollSteps (column : Option Nat) : Nat → Scanner → Scanner
  | 0, s => s
  | steps + 1, s =>
    match s.indent with
    | none => s
    | some indent =>
      if column.all fun c => c < indent then
        unrollSteps column steps
          { s.push .blockEnd with indent := s.outer.head?.getD none, outer := s.outer.drop 1 }
      else s

/-- Closes block collections, unless the place is inside brackets. -/
def unroll (column : Option Nat) : Scanner :=
  if s.inFlow then s else unrollSteps column (s.outer.length + 1) s

/-- Opens a block collection at a column, if that is right of the innermost one. Its token goes
before the token with the given number. -/
def roll (column : Nat) (number : Nat) (token : Token) : Scanner :=
  if s.inFlow || s.indent.any fun i => column ≤ i then s
  else
    { s with
      indent := some column
      outer := s.indent :: s.outer
      tokens := s.tokens.insertIdxIfInBounds number token }

/-- The candidate of the innermost brackets. -/
def candidate? : Option Candidate := s.candidates.head?.join

/-- Replaces the candidate of the innermost brackets. -/
def setCandidate (c : Option Candidate) : Scanner :=
  { s with candidates := c :: s.candidates.drop 1 }

/-- Gives up the candidate; one that was required cannot be given up. -/
def dropCandidate : Option Scanner :=
  if s.candidate?.any (·.required) then none else some (s.setCandidate none)

/-- Notes that a key may start here. -/
def noteCandidate : Option Scanner :=
  if s.keyAllowed then
    let required := !s.inFlow && s.indent = some s.cursor.column
    s.dropCandidate.map fun s => s.setCandidate (some ⟨required, s.tokens.size, s.cursor⟩)
  else some s

/-- The longest key in characters. -/
def maxKeyLength : Nat := 1024

/-- Gives up the candidates that are on an earlier line or too far back. -/
def dropStale : Option Scanner :=
  let isStale (c : Candidate) : Bool :=
    c.cursor.line < s.cursor.line || c.cursor.index + maxKeyLength < s.cursor.index
  if s.candidates.any fun c => c.any fun c => isStale c && c.required then none
  else
    some { s with
      candidates := s.candidates.map fun c => c.bind fun c => if isStale c then none else some c }

/-- Passes over spaces, comments and line breaks. Tabs do not indent. -/
def skipGaps : Nat → Scanner → Scanner
  | 0, s => s
  | steps + 1, s =>
    let tabs := s.inFlow || !s.keyAllowed
    let cursor := s.cursor.skipWhile fun c => c = ' ' || (tabs && c = '\t')
    let cursor :=
      if cursor.rest.head? = some '#' then cursor.skipWhile fun c => !isBreak c else cursor
    if !cursor.rest.isEmpty && atBreak cursor.rest then
      skipGaps steps
        { s with cursor := cursor.skipBreak.2, keyAllowed := s.keyAllowed || !s.inFlow }
    else { s with cursor := cursor }

/-! ## Tokens one by one -/

/-- A directive: the version, or a shorthand for tags. -/
def directive : Option Scanner := do
  let s ← (s.unroll none).dropCandidate
  let line := s.cursor.rest.takeWhile fun c => !isBreak c
  let words := Text.words (line.drop 1)
  let accepted : Bool :=
    match words with
    | name :: version :: rest =>
      (name = "YAML".toList && (version = "1.1".toList || version = "1.2".toList) &&
        rest.head?.all fun w => w.head? = some '#') ||
      (name = "TAG".toList && !rest.isEmpty)
    | _ => false
  if accepted then
    some { (s.skip line.length).push .directive with keyAllowed := false }
  else none

/-- The mark before or behind a document. -/
def documentMark (token : Token) : Option Scanner := do
  let s ← (s.unroll none).dropCandidate
  some { (s.skip 3).push token with keyAllowed := false }

/-- An opening bracket of a collection. -/
def openFlow (token : Token) : Option Scanner := do
  let s ← s.noteCandidate
  some { (s.skip 1).push token with keyAllowed := true, candidates := none :: s.candidates }

/-- A closing bracket of a collection. -/
def closeFlow (token : Token) : Option Scanner := do
  let s ← s.dropCandidate
  let candidates := if s.inFlow then s.candidates.drop 1 else s.candidates
  some { (s.skip 1).push token with keyAllowed := false, candidates := candidates }

/-- The comma between the items of a collection in brackets. -/
def flowEntry : Option Scanner := do
  let s ← s.dropCandidate
  some { (s.skip 1).push .flowEntry with keyAllowed := true }

/-- The dash before an item. -/
def blockEntry : Option Scanner := do
  if !s.inFlow && !s.keyAllowed then none
  let s ← (s.roll s.cursor.column s.tokens.size .blockSequenceStart).dropCandidate
  some { (s.skip 1).push .blockEntry with keyAllowed := true }

/-- The question mark before a key. -/
def keyMark : Option Scanner := do
  if !s.inFlow && !s.keyAllowed then none
  let s ← (s.roll s.cursor.column s.tokens.size .blockMappingStart).dropCandidate
  some { (s.skip 1).push .key with keyAllowed := !s.inFlow }

/-- The colon before a value. -/
def valueMark : Option Scanner :=
  match s.candidate? with
  | some c =>
    let s := { s with tokens := s.tokens.insertIdxIfInBounds c.tokens .key }
    let s := (s.roll c.cursor.column c.tokens .blockMappingStart).setCandidate none
    some { (s.skip 1).push .value with keyAllowed := false }
  | none =>
    if !s.inFlow && !s.keyAllowed then none
    else
      let s := s.roll s.cursor.column s.tokens.size .blockMappingStart
      some { (s.skip 1).push .value with keyAllowed := !s.inFlow }

/-- A character of the name of an anchor. -/
def isNameChar (c : Char) : Bool := c.isAlphanum || c = '_' || c = '-'

/-- What may follow the name of an anchor. -/
def endsName (cs : List Char) : Bool :=
  atGap cs || cs.head?.any fun c => "?:,]\x7d%@\x60".toList.contains c

/-- The name of an anchor or alias behind its indicator. -/
def named (token : String → Token) : Option Scanner := do
  let s ← s.noteCandidate
  let name := (s.cursor.rest.drop 1).takeWhile isNameChar
  let s := { s.skip (1 + name.length) with keyAllowed := false }
  if name.isEmpty || !endsName s.cursor.rest then none
  else some (s.push (token (String.ofList name)))

/-- The full name of a tag. -/
def tagName (cs : List Char) : List Char :=
  match cs with
  | '!' :: '<' :: rest => rest.takeWhile (· ≠ '>')
  | '!' :: '!' :: rest => "tag:yaml.org,2002:".toList ++ rest
  | cs => cs

/-- A tag. -/
def tag : Option Scanner := do
  let s ← s.noteCandidate
  let name := s.cursor.rest.takeWhile fun c =>
    !(isSpace c || isBreak c) && !(s.inFlow && isFlowIndicator c)
  some { (s.skip name.length).push (.tag (String.ofList (tagName name))) with keyAllowed := false }

/-- A block scalar. -/
def blockScalar (literal : Bool) : Option Scanner := do
  let s ← s.dropCandidate
  let (text, cursor) ← block literal s.indent s.cursor
  some { s.push (.scalar text false) with cursor := cursor, keyAllowed := true }

/-- A quoted scalar. -/
def quoted (quote : Char) : Option Scanner := do
  let s ← s.noteCandidate
  let (text, cursor) ← quotedScalar quote s.cursor
  some { s.push (.scalar text false) with cursor := cursor, keyAllowed := false }

/-- A plain scalar. -/
def plainScalar : Option Scanner := do
  let s ← s.noteCandidate
  let scope : PlainScope := ⟨s.inFlow, s.indent.elim 0 (· + 1)⟩
  let (text, cursor, brokeLine) ← plain scope s.cursor
  some { s.push (.scalar text true) with cursor := cursor, keyAllowed := brokeLine }

/-- May a plain scalar start with this character, whatever follows? -/
def startsPlain (c : Char) : Bool :=
  !(isSpace c || isBreak c || "-?:,[]\x7b\x7d#&*!|>'\"%@\x60".toList.contains c)

/-- The next token, with those that the indentation puts before it. -/
def next (c : Char) (cs : List Char) : Option Scanner :=
  if s.cursor.column = 0 && c = '%' then s.directive
  else if atDocumentMark s.cursor then
    s.documentMark (if c = '-' then .documentStart else .documentEnd)
  else if c = '[' then s.openFlow .flowSequenceStart
  else if c = '{' then s.openFlow .flowMappingStart
  else if c = ']' then s.closeFlow .flowSequenceEnd
  else if c = '}' then s.closeFlow .flowMappingEnd
  else if c = ',' then s.flowEntry
  else if c = '-' && atGap cs then s.blockEntry
  else if c = '?' && (s.inFlow || atGap cs) then s.keyMark
  else if c = ':' && (s.inFlow || atGap cs) then s.valueMark
  else if c = '*' then s.named .alias
  else if c = '&' then s.named .anchor
  else if c = '!' then s.tag
  else if c = '|' && !s.inFlow then s.blockScalar true
  else if c = '>' && !s.inFlow then s.blockScalar false
  else if c = '\'' || c = '"' then s.quoted c
  else if startsPlain c || (c = '-' && !cs.head?.any isSpace) ||
      (!s.inFlow && (c = '?' || c = ':') && !atGap cs) then s.plainScalar
  else none

/-- All tokens of the rest of the text. -/
def run : Nat → Scanner → Option (List Token)
  | 0, _ => none
  | steps + 1, s => do
    let s ← (skipGaps (s.cursor.rest.length + 1) s).dropStale
    match s.cursor.rest with
    | [] =>
      let s ← (s.unroll none).dropCandidate
      some s.tokens.toList
    | c :: cs =>
      let s ← (s.unroll (some s.cursor.column)).next c cs
      run steps s

end Scanner

/-- A character that may stand in a YAML text. -/
def isYamlChar (c : Char) : Bool :=
  let n := c.toNat
  n = 9 || n = 10 || n = 13 || (0x20 ≤ n && n ≤ 0x7e) || n = 0x85 || (0xa0 ≤ n && n ≤ 0xfffd) ||
    0x10000 ≤ n

/-- The tokens of a text, unless it is not well formed. -/
def Token.ofText? (text : List Char) : Option (List Token) :=
  let text := if text.head? = some (Char.ofNat 0xfeff) then text.drop 1 else text
  if text.all isYamlChar then Scanner.run (text.length + 1) (.start text) else none

end Runbook.Yaml

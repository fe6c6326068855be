import Runbook.Yaml.Cursor
import Runbook.Value.Reading

/-!
# Runbook.Yaml.Scalar

Reading the scalars of a YAML text: plain ones, quoted ones, and blocks. Each reader starts at the
first character of the scalar and gives its text and the place behind it, or nothing if the text is
not well formed.

A scalar over several lines is folded: a single line break becomes a blank, and of several the first
one is dropped. A literal block keeps its breaks.
-/

namespace Runbook.Yaml

/-- The gap between two parts of a scalar. -/
structure Fold where
  /-- The spaces, as long as there is no line break. -/
  spaces : List Char
  /-- The first line break, if there is one. -/
  first : Option (List Char)
  /-- The line breaks behind the first one. -/
  more : List Char

namespace Fold

/-- No gap. -/
def none : Fold := ⟨[], .none, []⟩

/-- The text that a gap stands for. -/
def chars (fold : Fold) : List Char :=
  match fold.first with
  | .none => fold.spaces
  | some first =>
    if first.head? = some '\n' then (if fold.more.isEmpty then [' '] else fold.more)
    else first ++ fold.more

/-- The gap with a further line break. -/
def addBreak (fold : Fold) (cs : List Char) : Fold :=
  match fold.first with
  | .none => ⟨[], some cs, []⟩
  | some _ => { fold with more := fold.more ++ cs }

end Fold

/-! ## Plain scalars -/

/-- What a plain scalar stands in. -/
structure PlainScope where
  /-- Is it inside brackets? -/
  inFlow : Bool
  /-- The least column of its further lines outside brackets. -/
  indent : Nat

/-- The text of a plain scalar so far, and where it ends. -/
structure PlainRead where
  /-- The text, last character first. -/
  read : List Char
  /-- The place behind it and behind the gap that follows. -/
  cursor : Cursor
  /-- Does the gap that follows have a line break? -/
  brokeLine : Bool

/-- The gap inside a plain scalar, or nothing at a tab that stands for indentation. -/
def plainGap (scope : PlainScope) : Nat → Fold → Cursor → Option (Fold × Cursor)
  | 0, _, _ => none
  | steps + 1, fold, cursor =>
    match cursor.rest with
    | [] => some (fold, cursor)
    | c :: _ =>
      if isSpace c then
        if fold.first.isSome && cursor.column < scope.indent && c = '\t' then none
        else
          let fold := if fold.first.isSome then fold else { fold with spaces := fold.spaces ++ [c] }
          plainGap scope steps fold (cursor.skip 1)
      else if isBreak c then
        let (cs, cursor) := cursor.skipBreak
        plainGap scope steps (fold.addBreak cs) cursor
      else some (fold, cursor)

/-- The characters of a plain scalar up to the next gap or its end. -/
def plainRun (scope : PlainScope) : List Char → Option (List Char)
  | [] => some []
  | c :: cs =>
    if isSpace c || isBreak c then some []
    else if c = ':' && atGap cs then some []
    else if scope.inFlow && c = ':' && cs.head?.any fun d => d = '?' || isFlowIndicator d then none
    else if scope.inFlow && isFlowIndicator c then some []
    else (plainRun scope cs).map (c :: ·)

/-- A plain scalar from a place inside of it; `fold` is the gap before. -/
def plainFrom (scope : PlainScope) : Nat → List Char → Fold → Cursor → Option PlainRead
  | 0, _, _, _ => none
  | steps + 1, read, fold, cursor =>
    let stop : PlainRead := ⟨read, cursor, fold.first.isSome⟩
    if atDocumentMark cursor || cursor.rest.head? = some '#' then some stop
    else
      match plainRun scope cursor.rest with
      | none => none
      | some run =>
        let read := if run.isEmpty then read else run.reverse ++ (fold.chars.reverse ++ read)
        let broke := run.isEmpty && fold.first.isSome
        let cursor := cursor.skip run.length
        if cursor.rest.isEmpty || !atGap cursor.rest then some ⟨read, cursor, broke⟩
        else
          let fold := if run.isEmpty then fold else Fold.none
          match plainGap scope (cursor.rest.length + 1) fold cursor with
          | none => none
          | some (fold, next) =>
            if !scope.inFlow && next.column < scope.indent then
              some ⟨read, next, fold.first.isSome⟩
            else plainFrom scope steps read fold next

/-- A plain scalar. -/
def plain (scope : PlainScope) (cursor : Cursor) : Option (String × Cursor × Bool) :=
  (plainFrom scope (cursor.rest.length + 1) [] .none cursor).map fun r =>
    (String.ofList r.read.reverse, r.cursor, r.brokeLine)

/-! ## Quoted scalars -/

/-- The code point of some hexadecimal digits that may stand in an escape. -/
def escapedCode? (digits : List Char) : Option Char := do
  let code ← digits.foldlM (fun n d => (Reading.hexDigit? d).map (n * 16 + ·)) 0
  if (0xd800 ≤ code ∧ code ≤ 0xdfff) ∨ 0x10ffff < code then none else some (Char.ofNat code)

/-- The character that an escape without digits stands for. -/
def escapedChar? (c : Char) : Option Char :=
  match c with
  | '0' => some (Char.ofNat 0)
  | 'a' => some (Char.ofNat 7)
  | 'b' => some (Char.ofNat 8)
  | 't' | '\t' => some '\t'
  | 'n' => some '\n'
  | 'v' => some (Char.ofNat 11)
  | 'f' => some (Char.ofNat 12)
  | 'r' => some '\r'
  | 'e' => some (Char.ofNat 27)
  | ' ' | '"' | '/' | '\\' => some c
  | 'N' => some (Char.ofNat 0x85)
  | '_' => some (Char.ofNat 0xa0)
  | 'L' => some (Char.ofNat 0x2028)
  | 'P' => some (Char.ofNat 0x2029)
  | _ => none

/-- The number of digits of an escape. -/
def escapeWidth? (c : Char) : Option Nat :=
  match c with
  | 'x' => some 2
  | 'u' => some 4
  | 'U' => some 8
  | _ => none

/-- The character of an escape behind its backslash, and the place behind the escape. -/
def escape? (cursor : Cursor) : Option (Char × Cursor) :=
  match cursor.rest with
  | [] => none
  | c :: cs =>
    match escapeWidth? c with
    | some width =>
      if cs.length < width then none
      else (escapedCode? (cs.take width)).map fun c => (c, cursor.skip (width + 1))
    | none => (escapedChar? c).map fun c => (c, cursor.skip 1)

/-- The gap inside a quoted scalar. -/
def quotedGap : Nat → Fold → Cursor → Fold × Cursor
  | 0, fold, cursor => (fold, cursor)
  | steps + 1, fold, cursor =>
    match cursor.rest with
    | [] => (fold, cursor)
    | c :: _ =>
      if isSpace c then
        let fold := if fold.first.isSome then fold else { fold with spaces := fold.spaces ++ [c] }
        quotedGap steps fold (cursor.skip 1)
      else if isBreak c then
        let (cs, cursor) := cursor.skipBreak
        quotedGap steps (fold.addBreak cs) cursor
      else (fold, cursor)

/-- The rest of a quoted scalar; `read` is the text so far, last character first. -/
def quotedFrom (quote : Char) : Nat → List Char → Cursor → Option (List Char × Cursor)
  | 0, _, _ => none
  | steps + 1, read, cursor =>
    if atDocumentMark cursor then none
    else
      match cursor.rest with
      | [] => none
      | c :: cs =>
        if c = quote then
          if quote = '\'' && cs.head? = some '\'' then
            quotedFrom quote steps ('\'' :: read) (cursor.skip 2)
          else some (read, cursor.skip 1)
        else if c = '\\' && quote = '"' then
          if !cs.isEmpty && atBreak cs then
            -- an escaped break joins the lines without a blank
            let (_, cursor) := (cursor.skip 1).skipBreak
            let (fold, cursor) := quotedGap (cursor.rest.length + 1) ⟨[], some [], []⟩ cursor
            quotedFrom quote steps (fold.chars.reverse ++ read) cursor
          else
            match escape? (cursor.skip 1) with
            | none => none
            | some (c, cursor) => quotedFrom quote steps (c :: read) cursor
        else if isSpace c || isBreak c then
          let (fold, cursor) := quotedGap (cursor.rest.length + 1) .none cursor
          quotedFrom quote steps (fold.chars.reverse ++ read) cursor
        else quotedFrom quote steps (c :: read) (cursor.skip 1)

/-- A quoted scalar, from its opening quote. -/
def quotedScalar (quote : Char) (cursor : Cursor) : Option (String × Cursor) :=
  (quotedFrom quote (cursor.rest.length + 1) [] (cursor.skip 1)).map fun (read, cursor) =>
    (String.ofList read.reverse, cursor)

/-! ## Blocks -/

/-- What becomes of the line breaks at the end of a block. -/
inductive Chomping where
  /-- All are dropped. -/
  | strip
  /-- One is kept. -/
  | clip
  /-- All are kept. -/
  | keep
deriving DecidableEq

/-- The header of a block: its indicators in any order. -/
structure BlockHeader where
  /-- What becomes of the last breaks. -/
  chomping : Chomping
  /-- The indentation, if it is given. -/
  increment : Option Nat

/-- An indentation indicator. -/
def increment? (c : Char) : Option Nat :=
  if '1' ≤ c ∧ c ≤ '9' then some (c.toNat - 48) else none

/-- A chomping indicator. -/
def chomping? (c : Char) : Option Chomping :=
  if c = '+' then some .keep else if c = '-' then some .strip else none

/-- The header behind the indicator of the block, and the number of its characters. -/
def blockHeader (cs : List Char) : BlockHeader × Nat :=
  match cs with
  | [] => (⟨.clip, none⟩, 0)
  | c :: cs =>
    let second := cs.head?
    match chomping? c, increment? c with
    | some chomping, _ =>
      match second.bind increment? with
      | some n => (⟨chomping, some n⟩, 2)
      | none => (⟨chomping, none⟩, 1)
    | none, some n =>
      match second.bind chomping? with
      | some chomping => (⟨chomping, some n⟩, 2)
      | none => (⟨.clip, some n⟩, 1)
    | none, none => (⟨.clip, none⟩, 0)

/-- The indentation and the empty lines before the next line of a block. With an indentation of
zero all blanks are passed over, and `widest` is the widest indentation seen. -/
def blockBreaks (indent : Nat) : Nat → List Char → Nat → Cursor → Option (List Char × Nat × Cursor)
  | 0, _, _, _ => none
  | steps + 1, breaks, widest, cursor =>
    let blanks := (cursor.rest.takeWhile (· = ' ')).length
    let cursor :=
      cursor.skip (if indent = 0 then blanks else min blanks (indent - cursor.column))
    let widest := max widest cursor.column
    if (indent = 0 || cursor.column < indent) && cursor.rest.head? = some '\t' then none
    else if !cursor.rest.isEmpty && atBreak cursor.rest then
      let (cs, cursor) := cursor.skipBreak
      blockBreaks indent steps (breaks ++ cs) widest cursor
    else some (breaks, widest, cursor)

/-- The lines of a block. `read` is the text so far, last character first, `last` the break behind
it, `breaks` the empty lines behind that, and `spaced` tells whether the last line starts with a
space. -/
def blockLines (literal : Bool) (indent : Nat) :
    Nat → List Char → List Char → List Char → Bool → Cursor →
      Option (List Char × List Char × List Char × Cursor)
  | 0, _, _, _, _, _ => none
  | steps + 1, read, last, breaks, spaced, cursor =>
    if cursor.column ≠ indent || cursor.rest.isEmpty then some (read, last, breaks, cursor)
    else
      let spacedNow := cursor.rest.head?.any isSpace
      let joint :=
        if !literal && last.head? = some '\n' && !spaced && !spacedNow then
          if breaks.isEmpty then [' '] else []
        else last
      let line := cursor.rest.takeWhile fun c => !isBreak c
      let read := line.reverse ++ (breaks.reverse ++ (joint.reverse ++ read))
      let (last, cursor) := (cursor.skip line.length).skipBreak
      match blockBreaks indent (cursor.rest.length + 1) [] 0 cursor with
      | none => none
      | some (breaks, _, cursor) =>
        blockLines literal indent steps read last breaks spacedNow cursor

/-- A block from its indicator; `parent` is the column of the collection around it. -/
def block (literal : Bool) (parent : Option Nat) (cursor : Cursor) : Option (String × Cursor) :=
  let (header, width) := blockHeader (cursor.rest.drop 1)
  let cursor := (cursor.skip (1 + width)).skipWhile isSpace
  let cursor :=
    if cursor.rest.head? = some '#' then cursor.skipWhile fun c => !isBreak c else cursor
  if !atBreak cursor.rest then none
  else
    let (_, cursor) := cursor.skipBreak
    let least := parent.elim 0 (· + 1)
    let given := header.increment.elim 0 fun n => parent.elim n (· + n)
    match blockBreaks given (cursor.rest.length + 1) [] 0 cursor with
    | none => none
    | some (breaks, widest, cursor) =>
      let indent := if given = 0 then max (max widest least) 1 else given
      match blockLines literal indent (cursor.rest.length + 1) [] [] breaks false cursor with
      | none => none
      | some (read, last, breaks, cursor) =>
        let ending :=
          match header.chomping with
          | .strip => []
          | .clip => last
          | .keep => last ++ breaks
        some (String.ofList (read.reverse ++ ending), cursor)

end Runbook.Yaml

import Runbook.Text.Blank
import Runbook.Text.Numeral
import Runbook.Value.Basic

/-!
# Runbook.Path

Paths into a value, such as `steps['build'].output.items[0]`. A path is a list of accessors, each a
key or an index, and walking it looks up one accessor after the other (`walk`). Its text is cut at
the points that stand outside brackets; in each segment a name comes first and bracketed accessors
follow. `ofText?` fails on text that is no path, and so does nothing else: a path that leads nowhere
is still a path.
-/

namespace Runbook

/-- One move into a value. -/
inductive Accessor where
  /-- The entry of a mapping, or the item of a list if the key is a number. -/
  | key (name : String)
  /-- The item of a list. -/
  | index (n : Nat)
deriving DecidableEq

/-- A list of accessors, applied from left to right. -/
abbrev Path := List Accessor

/-! ## Walking -/

/-- The part of a value under an accessor. -/
def Accessor.lookup (value : Value) : Accessor → Option Value
  | .key name =>
    match value with
    | .object entries => Entries.get? name entries
    | .array items => (Text.natural? Text.wordLimit name.toList).bind fun n => items[n]?
    | _ => none
  | .index n =>
    match value with
    | .array items => items[n]?
    | _ => none

namespace Path

/-- The part of a value at the end of a path. -/
def walk (value : Value) : Path → Option Value
  | [] => some value
  | a :: rest => (a.lookup value).bind fun v => walk v rest

/-! ## Reading -/

/-- A single or a double quote. -/
def isQuote (c : Char) : Bool := c = '\'' || c = '"'

/-- Puts a character in front of the first piece. -/
def extendFirst (c : Char) : List (List Char) → List (List Char)
  | [] => [[c]]
  | piece :: pieces => (c :: piece) :: pieces

/-- The pieces between the points outside brackets, when `depth` brackets and possibly a quote are
open. Quotes count inside brackets only. Fails if brackets or quotes do not match. -/
def segments? (depth : Nat) (quote : Option Char) : List Char → Option (List (List Char))
  | [] => if depth = 0 ∧ quote = none then some [[]] else none
  | c :: cs =>
    match quote with
    | some q => (segments? depth (if c = q then none else some q) cs).map (extendFirst c)
    | none =>
      if isQuote c ∧ 0 < depth then (segments? depth (some c) cs).map (extendFirst c)
      else if c = '[' then (segments? (depth + 1) none cs).map (extendFirst c)
      else if c = ']' then
        if depth = 0 then none else (segments? (depth - 1) none cs).map (extendFirst c)
      else if c = '.' ∧ depth = 0 then (segments? depth none cs).map ([] :: ·)
      else (segments? depth none cs).map (extendFirst c)

/-- The text up to the closing bracket that stands outside quotes, and the text behind it. -/
def closing? (quote : Option Char) : List Char → Option (List Char × List Char)
  | [] => none
  | c :: cs =>
    match quote with
    | some q =>
      (closing? (if c = q then none else some q) cs).map fun (inner, rest) => (c :: inner, rest)
    | none =>
      if isQuote c then (closing? (some c) cs).map fun (inner, rest) => (c :: inner, rest)
      else if c = ']' then some ([], cs)
      else (closing? none cs).map fun (inner, rest) => (c :: inner, rest)

/-- The text inside a pair of equal quotes. -/
def unquoted? (quote : Char) : List Char → Option (List Char)
  | [] => none
  | c :: cs => if c = quote ∧ cs.getLast? = some quote then some cs.dropLast else none

/-- A bracketed accessor: a key in quotes of either kind, or an index. -/
def accessor? (inner : List Char) : Option Accessor :=
  match unquoted? '"' inner with
  | some name => some (.key (String.ofList name))
  | none =>
    match unquoted? '\'' inner with
    | some name => some (.key (String.ofList name))
    | none => (Text.natural? Text.wordLimit inner).map .index

/-- A run of bracketed accessors; `steps` bounds their number. -/
def accessors? : Nat → List Char → Option Path
  | _, [] => some []
  | 0, _ :: _ => none
  | steps + 1, c :: cs =>
    if c = '[' then do
      let (inner, rest) ← closing? none cs
      let a ← accessor? (Text.trim inner)
      let more ← accessors? steps rest
      return a :: more
    else none

/-- One segment: a name, then bracketed accessors; at least one of them. -/
def segment? (cs : List Char) : Option Path := do
  let name := Text.trim (cs.takeWhile (· ≠ '['))
  let accessors ← accessors? cs.length (cs.dropWhile (· ≠ '['))
  if name.isEmpty then
    if accessors.isEmpty then none else return accessors
  else return .key (String.ofList name) :: accessors

/-- All segments in order, none of them empty. -/
def join? : List (List Char) → Option Path
  | [] => some []
  | piece :: pieces => do
    if piece.isEmpty then none
    let p ← segment? piece
    let rest ← join? pieces
    return p ++ rest

/-- The path that a text spells. -/
def ofText? (cs : List Char) : Option Path :=
  (segments? 0 none (Text.trim cs)).bind join?

/-- The value that a text leads to from a mapping, if the text is a path. -/
def resolve (root : Entries) (cs : List Char) : Option Value :=
  (ofText? cs).bind (walk (.object root))

end Path

end Runbook

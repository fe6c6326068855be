import Runbook.Yaml.Token

/-!
# Runbook.Yaml.Node

The document of a YAML text as a tree. An alias stands for the tree of its anchor, which has to come
first. A text holds at most one document; a text without any is read as one empty plain scalar.

A few aliases can stand for a huge tree, so the reader of the values follows only so many of them:
an alias that is followed is a jump, and there may be no more than a hundred jumps for each event of
the document (`Node.isWithinLimit`).
-/

namespace Runbook.Yaml

/-- A part of a document, with its tag if it has one. -/
inductive Node where
  /-- A scalar; only plain ones are more than strings. -/
  | scalar (text : String) (isPlain : Bool) (tag : Option String)
  | sequence (items : List Node) (tag : Option String)
  | mapping (entries : List (Node × Node)) (tag : Option String)
  /-- An alias, with the node of its anchor and the jumps that it takes to read it. -/
  | alias (target : Node) (jumps : Nat)

namespace Node

/-! ## aliases -/

mutual

/-- The jumps that it takes to read a node. Those behind an alias were counted where it was met. -/
def jumps : Node → Nat
  | .scalar _ _ _ => 0
  | .sequence items _ => jumpsOfItems items
  | .mapping entries _ => jumpsOfEntries entries
  | .alias _ jumps => jumps
termination_by structural n => n

/-- The jumps for some nodes. -/
def jumpsOfItems : List Node → Nat
  | [] => 0
  | n :: ns => n.jumps + jumpsOfItems ns
termination_by structural ns => ns

/-- The jumps for some entries. -/
def jumpsOfEntries : List (Node × Node) → Nat
  | [] => 0
  | (key, value) :: es => key.jumps + value.jumps + jumpsOfEntries es
termination_by structural es => es

end

mutual

/-- The events of a node: a scalar and an alias are one, and a collection has one at its start and
one at its end. -/
def events : Node → Nat
  | .scalar _ _ _ => 1
  | .sequence items _ => eventsOfItems items + 2
  | .mapping entries _ => eventsOfEntries entries + 2
  | .alias _ _ => 1
termination_by structural n => n

/-- The events of some nodes. -/
def eventsOfItems : List Node → Nat
  | [] => 0
  | n :: ns => n.events + eventsOfItems ns
termination_by structural ns => ns

/-- The events of some entries. -/
def eventsOfEntries : List (Node × Node) → Nat
  | [] => 0
  | (key, value) :: es => key.events + value.events + eventsOfEntries es
termination_by structural es => es

end

/-- The jumps that a document may take for each of its events. -/
def jumpsPerEvent : Nat := 100

/-- Can the document be read without too many jumps? -/
def isWithinLimit (root : Node) : Bool := root.jumps ≤ jumpsPerEvent * root.events

/-- An alias of a node. -/
def follow (target : Node) : Node := .alias target (target.jumps + 1)

/-- The text of a key, which has to be a scalar. -/
def key? : Node → Option String
  | .scalar text _ _ => some text
  | .alias target _ => key? target
  | .sequence _ _ | .mapping _ _ => none
termination_by structural n => n

/-! ## nodes out of tokens -/

/-- A scalar that is not written. -/
def missing : Node := .scalar "" true none

/-- The trees of the anchors so far, latest first. An anchor has no tree until the end of its node,
so no node contains itself. -/
abbrev Anchors := List (String × Option Node)

/-- A part of the tokens that was read: the result, the anchors behind it and the other tokens. -/
abbrev Read (α : Type) := α × Anchors × List Token

/-- The anchors inside of a node. -/
def withOpen (anchor : Option String) (anchors : Anchors) : Anchors :=
  match anchor with
  | some name => (name, none) :: anchors
  | none => anchors

/-- The anchors behind the node of an anchor. -/
def close (name : String) (n : Node) : List (String × Option Node) → Anchors
  | [] => []
  | (other, tree) :: rest =>
    if other = name ∧ tree.isNone then (other, some n) :: rest
    else (other, tree) :: close name n rest

/-- The anchor and the tag before a node, in any order. -/
def properties : List Token → Option String × Option String × List Token
  | .anchor a :: .tag t :: rest => (some a, some t, rest)
  | .tag t :: .anchor a :: rest => (some a, some t, rest)
  | .anchor a :: rest => (some a, none, rest)
  | .tag t :: rest => (none, some t, rest)
  | rest => (none, none, rest)

/-- May a node start with the next token, or does one of the given tokens leave it out? -/
def isLeftOut (ends : List Token) (tokens : List Token) : Bool :=
  tokens.head?.any ends.contains

mutual

/-- A node. Inside brackets no block collection may start; the value of a key may be a sequence
that is not indented. -/
def node (inBlock indentless : Bool) : Nat → Anchors → List Token → Option (Read Node)
  | 0, _, _ => none
  | steps + 1, anchors, tokens =>
    match tokens with
    | .alias name :: rest => (anchors.lookup name).join.map fun n => (follow n, anchors, rest)
    | tokens =>
      let (anchor, tag, rest) := properties tokens
      let anchors := withOpen anchor anchors
      let body : Option (Read Node) :=
        match rest with
        | .blockEntry :: more =>
          if indentless then
            (indentlessItems steps anchors (.blockEntry :: more)).map fun (items, anchors, rest) =>
              (.sequence items tag, anchors, rest)
          else if anchor.isSome || tag.isSome then some (.scalar "" true tag, anchors, rest)
          else none
        | .scalar text isPlain :: rest => some (.scalar text isPlain tag, anchors, rest)
        | .flowSequenceStart :: rest =>
          (flowItems true steps anchors rest).map fun (items, anchors, rest) =>
            (.sequence items tag, anchors, rest)
        | .flowMappingStart :: rest =>
          (flowEntries true steps anchors rest).map fun (entries, anchors, rest) =>
            (.mapping entries tag, anchors, rest)
        | .blockSequenceStart :: more =>
          if inBlock then
            (blockItems steps anchors more).map fun (items, anchors, rest) =>
              (.sequence items tag, anchors, rest)
          else if anchor.isSome || tag.isSome then some (.scalar "" true tag, anchors, rest)
          else none
        | .blockMappingStart :: more =>
          if inBlock then
            (blockEntries steps anchors more).map fun (entries, anchors, rest) =>
              (.mapping entries tag, anchors, rest)
          else if anchor.isSome || tag.isSome then some (.scalar "" true tag, anchors, rest)
          else none
        | _ =>
          if anchor.isSome || tag.isSome then some (.scalar "" true tag, anchors, rest) else none
      match anchor with
      | none => body
      | some name => body.map fun (n, anchors, rest) => (n, close name n anchors, rest)

/-- A node, or nothing where one of the given tokens is next. -/
def optionalNode (inBlock indentless : Bool) (ends : List Token) :
    Nat → Anchors → List Token → Option (Read Node)
  | 0, _, _ => none
  | steps + 1, anchors, tokens =>
    if isLeftOut ends tokens then some (missing, anchors, tokens)
    else node inBlock indentless steps anchors tokens

/-- The items of a block sequence, up to its end. -/
def blockItems : Nat → Anchors → List Token → Option (Read (List Node))
  | 0, _, _ => none
  | steps + 1, anchors, tokens =>
    match tokens with
    | .blockEnd :: rest => some ([], anchors, rest)
    | .blockEntry :: rest => do
      let (item, anchors, rest) ←
        optionalNode true false [.blockEntry, .blockEnd] steps anchors rest
      let (items, anchors, rest) ← blockItems steps anchors rest
      some (item :: items, anchors, rest)
    | _ => none

/-- The items of a sequence at the indentation of the mapping around it. -/
def indentlessItems : Nat → Anchors → List Token → Option (Read (List Node))
  | 0, _, _ => none
  | steps + 1, anchors, tokens =>
    match tokens with
    | .blockEntry :: rest => do
      let (item, anchors, rest) ←
        optionalNode true false [.blockEntry, .key, .value, .blockEnd] steps anchors rest
      let (items, anchors, rest) ← indentlessItems steps anchors rest
      some (item :: items, anchors, rest)
    | rest => some ([], anchors, rest)

/-- The entries of a block mapping, up to its end. -/
def blockEntries : Nat → Anchors → List Token → Option (Read (List (Node × Node)))
  | 0, _, _ => none
  | steps + 1, anchors, tokens =>
    match tokens with
    | .blockEnd :: rest => some ([], anchors, rest)
    | .key :: rest => do
      let ends := [.key, .value, .blockEnd]
      let (key, anchors, rest) ← optionalNode true true ends steps anchors rest
      let (value, anchors, rest) ←
        match rest with
        | .value :: rest => optionalNode true true ends steps anchors rest
        | rest => some (missing, anchors, rest)
      let (entries, anchors, rest) ← blockEntries steps anchors rest
      some ((key, value) :: entries, anchors, rest)
    | _ => none

/-- The items of a sequence in brackets; a comma stands before each but the first. An item with a
colon is a mapping with one entry. -/
def flowItems (isFirst : Bool) : Nat → Anchors → List Token → Option (Read (List Node))
  | 0, _, _ => none
  | steps + 1, anchors, tokens =>
    match tokens with
    | .flowSequenceEnd :: rest => some ([], anchors, rest)
    | tokens => do
      let tokens ←
        match isFirst, tokens with
        | true, tokens => some tokens
        | false, .flowEntry :: rest => some rest
        | false, _ => none
      match tokens with
      | .flowSequenceEnd :: rest => some ([], anchors, rest)
      | .key :: rest =>
        let (key, anchors, rest) ←
          optionalNode false false [.value, .flowEntry, .flowSequenceEnd] steps anchors rest
        let (value, anchors, rest) ←
          match rest with
          | .value :: rest =>
            optionalNode false false [.flowEntry, .flowSequenceEnd] steps anchors rest
          | rest => some (missing, anchors, rest)
        let (items, anchors, rest) ← flowItems false steps anchors rest
        some (.mapping [(key, value)] none :: items, anchors, rest)
      | tokens =>
        let (item, anchors, rest) ← node false false steps anchors tokens
        let (items, anchors, rest) ← flowItems false steps anchors rest
        some (item :: items, anchors, rest)

/-- The entries of a mapping in braces; a comma stands before each but the first. An entry without
a colon has no value. -/
def flowEntries (isFirst : Bool) : Nat → Anchors → List Token → Option (Read (List (Node × Node)))
  | 0, _, _ => none
  | steps + 1, anchors, tokens =>
    match tokens with
    | .flowMappingEnd :: rest => some ([], anchors, rest)
    | tokens => do
      let tokens ←
        match isFirst, tokens with
        | true, tokens => some tokens
        | false, .flowEntry :: rest => some rest
        | false, _ => none
      match tokens with
      | .flowMappingEnd :: rest => some ([], anchors, rest)
      | .key :: rest =>
        let (key, anchors, rest) ←
          optionalNode false false [.value, .flowEntry, .flowMappingEnd] steps anchors rest
        let (value, anchors, rest) ←
          match rest with
          | .value :: rest =>
            optionalNode false false [.flowEntry, .flowMappingEnd] steps anchors rest
          | rest => some (missing, anchors, rest)
        let (entries, anchors, rest) ← flowEntries false steps anchors rest
        some ((key, value) :: entries, anchors, rest)
      | tokens =>
        let (key, anchors, rest) ← node false false steps anchors tokens
        let (entries, anchors, rest) ← flowEntries false steps anchors rest
        some ((key, missing) :: entries, anchors, rest)

end

/-- The tokens behind the directives and the mark before a document, and whether there is a mark. A
directive needs it. -/
def documentBody (hasDirective : Bool) : List Token → Option (Bool × List Token)
  | .directive :: rest => documentBody true rest
  | .documentStart :: rest => some (true, rest)
  | rest => if hasDirective then none else some (false, rest)

/-- The single document of some tokens. Only behind a mark may it be left out. -/
def ofTokens? (tokens : List Token) : Option Node := do
  let (isMarked, body) ← documentBody false tokens
  let steps := 3 * tokens.length + 3
  let (root, rest) ←
    if body.isEmpty ||
        (isMarked && isLeftOut [.documentEnd, .documentStart, .directive] body) then
      some (missing, body)
    else (node true false steps [] body).map fun (n, _, rest) => (n, rest)
  if (rest.dropWhile (· = .documentEnd)).isEmpty then some root else none

end Node

end Runbook.Yaml

import Runbook.Text.Search
import Runbook.Text.Blank

/-!
# Runbook.File.Path

Paths of files, as texts and as components. Normalising a path drops its single dots and lets each
double dot drop the name before it; at the start of a path there is nothing to drop, and a double
dot has no effect. It never looks at files.

`FilePath.within?` decides whether a path stays inside a root directory: both are normalised, and
the components of the root must be the first ones of the path.
-/

namespace Runbook

/-- A component of a path. -/
inductive Component where
  /-- The slash at the front of an absolute path. -/
  | root
  /-- A single dot, which is a component only at the front. -/
  | here
  /-- A double dot. -/
  | up
  /-- Any other name. -/
  | name (cs : List Char)
deriving DecidableEq

/-- A path without dots: absolute or not, and the names from the outside in. -/
structure PlainPath where
  /-- Does the path start at the root? -/
  absolute : Bool
  /-- The names. -/
  names : List (List Char)
deriving DecidableEq

namespace PlainPath

/-- The components of a path without dots. -/
def components (p : PlainPath) : List Component :=
  (if p.absolute then [.root] else []) ++ p.names.map .name

/-- Texts with a slash between them. -/
def joinNames : List (List Char) → List Char
  | [] => []
  | [name] => name
  | name :: names => name ++ '/' :: joinNames names

/-- The text of a path. -/
def chars (p : PlainPath) : List Char :=
  if p.absolute then '/' :: joinNames p.names else joinNames p.names

/-- The text of a path as a string. -/
def text (p : PlainPath) : String := String.ofList p.chars

/-- The path behind a further component. -/
def enter (p : PlainPath) : Component → PlainPath
  | .root => ⟨true, []⟩
  | .here => p
  | .up => { p with names := p.names.dropLast }
  | .name cs => { p with names := p.names ++ [cs] }

end PlainPath

namespace FilePath

/-- Does the path start with a slash? -/
def isAbsolute (cs : List Char) : Bool := cs.head? = some '/'

/-- The component for the text between two slashes; nothing and a single dot are none. -/
def component? (piece : List Char) : Option Component :=
  if piece = [] ∨ piece = ['.'] then none
  else if piece = ['.', '.'] then some .up
  else some (.name piece)

/-- The components of a path. -/
def components (cs : List Char) : List Component :=
  let pieces := Text.splitOnChar '/' cs
  let first : List Component :=
    if isAbsolute cs then [.root] else if pieces.head? = some ['.'] then [.here] else []
  first ++ pieces.filterMap component?

/-- The path without dots that a path leads to. -/
def normalize (cs : List Char) : PlainPath := (components cs).foldl .enter ⟨false, []⟩

/-- A path that starts where another one leads to. An absolute path starts at the root anyway. -/
def join (base path : List Char) : List Char :=
  if isAbsolute path || base.isEmpty then path
  else if base.getLast? = some '/' then base ++ path
  else base ++ '/' :: path

/-- The normal form of a path that is read from a root directory, if it stays inside of it. -/
def within? (root path : List Char) : Option PlainPath :=
  let root := normalize root
  let path := if isAbsolute path then path else join root.chars path
  let resolved := normalize path
  if root.components.isPrefixOf resolved.components then some resolved else none

/-- The last name of a path, unless the path ends in dots or is the root. -/
def fileName? (cs : List Char) : Option (List Char) :=
  match (components cs).getLast? with
  | some (.name n) => some n
  | _ => none

/-- What follows the last point of the last name; a point at its front starts no extension. -/
def extension? (cs : List Char) : Option (List Char) :=
  match fileName? cs with
  | none => none
  | some name =>
    let ending := (name.reverse.takeWhile (· ≠ '.')).reverse
    if ending.length + 1 < name.length then some ending else none

/-- The text of a path before its last component and the slashes between them. -/
def parent? (cs : List Char) : Option (List Char) :=
  match (components cs).getLast? with
  | none | some .root => none
  | some _ => some (dropComponent (dropSlashes cs.reverse)).reverse
where
  /-- A reversed path without the slashes, and the dots that are no components, at its end. -/
  dropSlashes : List Char → List Char
    | '/' :: rest => if rest.isEmpty then ['/'] else dropSlashes rest
    | '.' :: '/' :: rest => if rest.isEmpty then ['/'] else dropSlashes rest
    | rest => rest
  /-- A reversed path without its last component and the slashes before it. -/
  dropComponent (reversed : List Char) : List Char :=
    dropSlashes (reversed.dropWhile (· ≠ '/'))

/-- The path, its parent, the parent of that, and so on; `steps` bounds their number. -/
def ancestorsSteps : Nat → List Char → List (List Char)
  | 0, cs => [cs]
  | steps + 1, cs =>
    match parent? cs with
    | some p => cs :: ancestorsSteps steps p
    | none => [cs]

/-- The path, its parent, the parent of that, and so on. -/
def ancestors (cs : List Char) : List (List Char) := ancestorsSteps cs.length cs

/-- A path in which a tilde at the front stands for the home directory. -/
def expandTilde (home path : List Char) : List Char :=
  match Text.trim path with
  | ['~'] => home
  | '~' :: '/' :: rest => join home rest
  | '~' :: '\\' :: rest => join home rest
  | cs => cs

end FilePath

end Runbook

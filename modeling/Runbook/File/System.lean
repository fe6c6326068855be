import Runbook.File.Path
import Runbook.Value.Fault

/-!
# Runbook.File.System

A tree of files and directories without links, and opening a file in it by a path. The directories
on the way must exist, also those that a double dot leaves again, and only a directory may be
followed by a slash.
-/

namespace Runbook

/-- What is found under a name. -/
inductive FileNode where
  /-- A directory. -/
  | directory
  /-- A file with its text; none if its bytes are no text. -/
  | file (text : Option String)

/-- Why a file cannot be read. -/
inductive FileFault where
  | notFound
  | notDirectory
  | isDirectory
  | nameTooLong
  | badName
  | notText
deriving DecidableEq

/-- The description of a fault. -/
def FileFault.message : FileFault → String
  | notFound => "No such file or directory (os error 2)"
  | notDirectory => "Not a directory (os error 20)"
  | isDirectory => "Is a directory (os error 21)"
  | nameTooLong => "File name too long (os error 36)"
  | badName => "file name contained an unexpected NUL byte"
  | notText => "stream did not contain valid UTF-8"

/-- A tree of files, and the directory from which relative paths are read. -/
structure FileSystem where
  /-- The node under some names, from the root; the root itself is a directory. -/
  node? : List (List Char) → Option FileNode
  /-- The names of the current directory. -/
  current : List (List Char)

namespace FileSystem

variable (files : FileSystem)

/-- The path of the current directory. -/
def currentPath : List Char := PlainPath.chars ⟨true, files.current⟩

/-- The node behind some pieces of a path, from a directory with the given names. -/
def walk (at_ : List (List Char)) : List (List Char) → Except FileFault FileNode
  | [] =>
    match files.node? at_ with
    | some node => .ok node
    | none => .error .notFound
  | piece :: pieces =>
    match files.node? at_ with
    | none => .error .notFound
    | some (.file _) => .error .notDirectory
    | some .directory =>
      if piece = [] ∨ piece = ['.'] then walk at_ pieces
      else if piece = ['.', '.'] then walk at_.dropLast pieces
      else if 255 < byteLength piece then .error .nameTooLong
      else walk (at_ ++ [piece]) pieces

/-- The longest path in bytes. -/
def maxPathLength : Nat := 4095

/-- The node that a path leads to. -/
def find (path : List Char) : Except FileFault FileNode :=
  if path.isEmpty then .error .notFound
  else if path.contains (Char.ofNat 0) then .error .badName
  else if maxPathLength < byteLength path then .error .nameTooLong
  else files.walk (if FilePath.isAbsolute path then [] else files.current)
    (Text.splitOnChar '/' path)

/-- Is there anything at a path? -/
def exists? (path : List Char) : Bool := (files.find path).toOption.isSome

/-- The text of the file at a path. -/
def read (path : List Char) : Except FileFault String :=
  match files.find path with
  | .error fault => .error fault
  | .ok .directory => .error .isDirectory
  | .ok (.file none) => .error .notText
  | .ok (.file (some text)) => .ok text

/-- A tree from its files and directories under their names. The directories above them are part of
the tree. -/
def ofList (entries : List (List (List Char) × FileNode)) (current : List (List Char)) :
    FileSystem where
  node? names :=
    match entries.find? fun e => e.1 = names with
    | some e => some e.2
    | none =>
      if names.isPrefixOf current || entries.any fun e => names.isPrefixOf e.1 then some .directory
      else none
  current := current

end FileSystem

end Runbook

import Runbook.CommandLine.Reply
import Std.Time.Format

/-!
# Runbook.Main

The program. It takes the words of the command line, the environment, the time and the files, has
the command carried out, prints the reply, and tells by its exit code whether the command succeeded.

The files are gathered before the command is carried out: the settings, the file that the command
names with the directories above it, and everything below the workspace. Links to directories are
not followed there.
-/

namespace Runbook.CommandLine

/-! ## Files -/

/-- Files and directories under their names. -/
abbrev Gathered := List (List (List Char) × FileNode)

/-- What is found at a path; nothing if it cannot be read. -/
def nodeAt (path : String) : IO (Option FileNode) := do
  try
    let place ← IO.FS.realPath path
    if ← place.isDir then return some .directory
    return some (.file (String.fromUTF8? (← IO.FS.readBinFile place)))
  catch _ => return none

/-- What is found at some absolute paths. -/
def gather (paths : List (List Char)) : IO Gathered := do
  let mut found := []
  for path in paths do
    if let some node ← nodeAt (String.ofList path) then
      found := ((FilePath.normalize path).names, node) :: found
  return found

/-- What is found at an absolute path and at the directories above it. -/
def gatherAlong (path : List Char) : IO Gathered := gather (FilePath.ancestors path)

/-- Everything below a directory, under the directory's names; `place` is its path without links. -/
partial def gatherBelow (names : List (List Char)) (place : String) : IO Gathered := do
  let mut found := []
  for entry in ← (← IO.FS.realPath place).readDir do
    let names := names ++ [entry.fileName.toList]
    let place := place ++ "/" ++ entry.fileName
    match ← nodeAt place with
    | none => pure ()
    | some node =>
      found := (names, node) :: found
      if let .directory := node then
        if (← IO.FS.realPath place).toString = place then
          found := (← gatherBelow names place) ++ found
  return found

/-- Everything below a directory, if there is one. -/
def gatherDirectory (path : List Char) : IO Gathered := do
  try
    gatherBelow (FilePath.normalize path).names (← IO.FS.realPath (String.ofList path)).toString
  catch _ => return []

/-- What a command can see, apart from the settings. -/
def gatherFor (settings : Settings) (current : PlainPath) : Command → IO Gathered
  | .run path _ _ _ => do
    let path := FilePath.join current.chars path.toList
    let above ← gatherAlong path
    let marks ← gather ((FilePath.ancestors path).map fun d => FilePath.join d ".git".toList)
    let known := above ++ marks
    let scene : Scene := ⟨settings, .ofList known current.names, ""⟩
    let root := (scene.workspace (detectRoot scene.files path)).root
    return known ++ (← gatherDirectory (FilePath.join current.chars root))
  | .validate path => gatherAlong (FilePath.join current.chars path.toList)
  | .invoke _ _ => do
    let scene : Scene := ⟨settings, .ofList [] current.names, ""⟩
    gatherDirectory (FilePath.join current.chars scene.currentWorkspace.root)
  | .tools | .config => return []

/-! ## Surroundings -/

/-- The environment of the program. -/
def readEnvironment : IO Environment := do
  let mut bindings := []
  for name in Environment.names do
    if let some text ← IO.getEnv name then bindings := (name, text) :: bindings
  return .ofList bindings none

/-- The current time, in the zone without an offset. -/
def readTime : IO String := do
  let stamp ← Std.Time.Timestamp.now
  let time := Std.Time.PlainDateTime.ofWallTime
    (Std.Time.WallTime.ofNanoseconds stamp.toNanosecondsSinceUnixEpoch)
  return time.toLeanDateTimeString ++ "+00:00"

/-! ## Messages -/

/-- The help text. -/
def helpText : String :=
  "Run declarative step workflows.\n\n" ++
  "Usage: stepflow <COMMAND>\n\n" ++
  "Commands:\n" ++
  "  run       Execute a workflow definition\n" ++
  "  validate  Check that a workflow file is well formed\n" ++
  "  tools     List available capabilities\n" ++
  "  tool-run  Invoke one capability directly with a JSON object of arguments\n" ++
  "  config    Print the resolved settings\n" ++
  "  help      Print this message\n"

/-- What is said of words that are no command. -/
def Stop.text : Stop → String
  | help | noCommand => helpText
  | version => "stepflow 0.1.0\n"
  | unknownCommand => "error: unrecognized subcommand\n"
  | unknownArgument => "error: unexpected argument\n"
  | missingArgument => "error: a required argument was not provided\n"
  | badValue => "error: a value is required but none was supplied\n"
  | unwantedValue => "error: unexpected value for an option\n"
  | repeatedOption => "error: an option cannot be used multiple times\n"

/-- Was something asked for that is no command but can be answered? -/
def Stop.isAnswer (stop : Stop) : Bool := stop = .help || stop = .version

/-! ## The program -/

/-- Carries out a command where the program was started, and gives the exit code. -/
def perform (command : Command) : IO UInt32 := do
  let environment ← readEnvironment
  let current := FilePath.normalize (← IO.currentDir).toString.toList
  let settingsPath := FilePath.join current.chars environment.settingsPath
  let known ← gatherAlong settingsPath
  match Settings.load (.ofList known current.names) environment with
  | .error e =>
    IO.eprintln ("Error: failed to load settings: " ++ e.message)
    return 1
  | .ok loaded =>
    let files := known ++ (← gatherFor loaded.settings current command)
    let scene : Scene := ⟨loaded.settings, .ofList files current.names, ← readTime⟩
    let reply := scene.reply command
    IO.print reply.text
    return if reply.success then 0 else 1

end Runbook.CommandLine

open Runbook.CommandLine in
/-- Carries out the command that the words spell. -/
def main (words : List String) : IO UInt32 := do
  match Command.ofWords words with
  | .ok command => perform command
  | .error stop =>
    if stop.isAnswer then
      IO.print stop.text
      return 0
    else
      IO.eprint stop.text
      return 2

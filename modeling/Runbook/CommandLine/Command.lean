import Runbook.Text.Search

/-!
# Runbook.CommandLine.Command

Reading the words of a command line. `Command.ofWords` gives the command that they spell, or the
`Stop` that keeps them from being one, which may be a request for help.

The words are read from left to right, and the first one that does not fit decides. An argument is
looked at once the next word is known not to belong to it, so a bad argument shows behind the word
that follows (`Draft.settle`).
-/

namespace Runbook.CommandLine

/-- What the program can be asked to do. -/
inductive Command where
  /-- Run a workflow file. -/
  | run (path : String) (pairs : List String) (asData : Bool) (words : List String)
  /-- Check a workflow file. -/
  | validate (path : String)
  /-- List the capabilities. -/
  | tools
  /-- Invoke a capability. -/
  | invoke (name : String) (args : String)
  /-- Show the settings. -/
  | config
deriving DecidableEq

/-- Why words are no command. -/
inductive Stop where
  /-- Help is asked for. -/
  | help
  /-- The version is asked for. -/
  | version
  /-- There is no command. -/
  | noCommand
  /-- There is no such command. -/
  | unknownCommand
  /-- An option or argument that the command does not have. -/
  | unknownArgument
  /-- An argument is missing. -/
  | missingArgument
  /-- An argument or the value of an option is empty. -/
  | badValue
  /-- A value for an option that takes none. -/
  | unwantedValue
  /-- An option that must not be given twice. -/
  | repeatedOption
deriving DecidableEq

/-! ## Words -/

/-- What a word looks like. -/
inductive Form where
  /-- Two dashes: everything behind them is an argument. -/
  | separator
  /-- Two dashes and a name, with or without a value. -/
  | long (name : String) (value : Option String)
  /-- One dash and letters. -/
  | short (letters : List Char)
  /-- Anything else. -/
  | plain
deriving DecidableEq

/-- The form of a word. -/
def Form.ofWord (word : String) : Form :=
  match word.toList with
  | ['-', '-'] => .separator
  | '-' :: '-' :: cs =>
    match Text.cut? ['='] cs with
    | some (name, value) => .long (String.ofList name) (some (String.ofList value))
    | none => .long (String.ofList cs) none
  | ['-'] => .plain
  | '-' :: letters => .short letters
  | _ => .plain

/-! ## Commands with arguments only -/

/-- The arguments of a command that has at most `limit` of them, in reversed order. `accepts` says
which ones are good, and `bare` whether a separator was read. -/
def arguments (accepts : String → Bool) (limit : Nat) (taken : List String) (bare : Bool) :
    List String → Except Stop (List String)
  | [] => if taken.all accepts then .ok taken else .error .badValue
  | word :: rest =>
    match if bare then .plain else Form.ofWord word with
    | .separator => arguments accepts limit taken true rest
    | .long "help" (some _) => .error .unwantedValue
    | .long "help" none | .short ('h' :: _) =>
      .error (if taken.all accepts then .help else .badValue)
    | .long _ _ | .short _ => .error .unknownArgument
    | .plain =>
      if taken.length < limit then arguments accepts limit (word :: taken) bare rest
      else .error .unknownArgument

/-- The command to check a file. -/
def validateOfWords (words : List String) : Except Stop Command :=
  match arguments (fun path => path ≠ "") 1 [] false words with
  | .error stop => .error stop
  | .ok [path] => .ok (.validate path)
  | .ok _ => .error .missingArgument

/-- The arguments of a capability if none are given. -/
def noArguments : String := "\x7b\x7d"

/-- The command to invoke a capability. -/
def invokeOfWords (words : List String) : Except Stop Command :=
  match arguments (fun _ => true) 2 [] false words with
  | .error stop => .error stop
  | .ok [name] => .ok (.invoke name noArguments)
  | .ok [args, name] => .ok (.invoke name args)
  | .ok _ => .error .missingArgument

/-- A command without arguments. -/
def withoutArguments (command : Command) (words : List String) : Except Stop Command :=
  (arguments (fun _ => true) 0 [] false words).map fun _ => command

/-! ## The command to run a file -/

/-- What is known of a run. -/
structure Draft where
  /-- The file. -/
  path : Option String
  /-- The pairs, last first. -/
  pairs : List String
  /-- Is the result to be shown as data? -/
  asData : Bool
  /-- Was the last word an option whose value is still to come? -/
  awaiting : Bool

namespace Draft

/-- Nothing. -/
def empty : Draft := ⟨none, [], false, false⟩

/-- Accepts what was read, unless a value is missing or the path is empty. -/
def settle {α : Type} (draft : Draft) (next : Except Stop α) : Except Stop α :=
  if draft.awaiting || draft.path = some "" then .error .badValue else next

/-- Adds a pair. -/
def withPair (draft : Draft) (pair : String) : Draft :=
  { draft with pairs := pair :: draft.pairs, awaiting := false }

/-- The draft behind an option for a pair. -/
def withOption (draft : Draft) : Option String → Draft
  | some pair => draft.withPair pair
  | none => { draft with awaiting := true }

/-- Closes a draft with the trailing words; the first of them is the path if there is none yet. -/
def finish (draft : Draft) (words : List String) : Except Stop Command :=
  match draft.path, words with
  | none, [] => draft.settle (.error .missingArgument)
  | none, path :: words =>
    { draft with path := some path }.settle (.ok (.run path draft.pairs.reverse draft.asData words))
  | some path, words => draft.settle (.ok (.run path draft.pairs.reverse draft.asData words))

end Draft

/-- The letters of the options of a run. -/
def runLetters : List Char := ['h', 'p']

/-- The value that stands in one word with the letter of an option; an equals sign in front of it
does not belong to it. -/
def attachedValue? : List Char → Option String
  | [] => none
  | '=' :: cs => some (String.ofList cs)
  | cs => some (String.ofList cs)

/-- Reads the words of a run. Behind the path, the first word that is no option starts the trailing
words, unless it is the value of the option before it. -/
def runFrom (draft : Draft) : List String → Except Stop Command
  | [] => draft.finish []
  | word :: rest =>
    let foreign (otherwise : Except Stop Command) : Except Stop Command :=
      if draft.path.isNone then otherwise
      else if draft.awaiting then runFrom (draft.withPair word) rest
      else draft.finish (word :: rest)
    match Form.ofWord word with
    | .separator => draft.finish rest
    | .long "json" (some _) | .long "help" (some _) => .error .unwantedValue
    | .long "json" none =>
      draft.settle <|
        if draft.asData then .error .repeatedOption
        else runFrom { draft with asData := true } rest
    | .long "help" none => draft.settle (.error .help)
    | .long "param" value => draft.settle (runFrom (draft.withOption value) rest)
    | .long _ _ => foreign (.error .unknownArgument)
    | .short letters =>
      if draft.path.isSome && letters.any fun c => !runLetters.contains c then
        foreign (.error .unknownArgument)
      else
        match letters with
        | 'h' :: _ => draft.settle (.error .help)
        | 'p' :: value => draft.settle (runFrom (draft.withOption (attachedValue? value)) rest)
        | _ => .error .unknownArgument
    | .plain =>
      if draft.awaiting then runFrom (draft.withPair word) rest
      else if draft.path.isNone then runFrom { draft with path := some word } rest
      else draft.finish (word :: rest)

/-! ## All commands -/

/-- How the words behind the name of a command are read. -/
def readers : List (String × (List String → Except Stop Command)) :=
  [("run", runFrom .empty), ("validate", validateOfWords), ("tools", withoutArguments .tools),
    ("tool-run", invokeOfWords), ("config", withoutArguments .config)]

/-- The command that asks for help. -/
def helpName : String := "help"

/-- Is there a command with this name? -/
def isCommandName (name : String) : Bool := name = helpName || readers.any fun r => r.1 = name

/-- Help for a command, if a name is given. -/
def helpOfWords : List String → Stop
  | [] => .help
  | [name] => if isCommandName name then .help else .unknownCommand
  | _ => .unknownCommand

/-- What stops the words where no command stands in front. -/
def stopOfWords : List String → Stop
  | [] => .noCommand
  | word :: rest =>
    match Form.ofWord word with
    | .separator =>
      match rest with
      | [] => .noCommand
      | name :: _ => if isCommandName name then .unknownArgument else .unknownCommand
    | .long "help" none | .short ('h' :: _) => .help
    | .long "version" none | .short ('V' :: _) => .version
    | .long "help" (some _) | .long "version" (some _) => .unwantedValue
    | .long _ _ | .short _ => .unknownArgument
    | .plain => .unknownCommand

/-- The command that words spell. -/
def Command.ofWords (words : List String) : Except Stop Command :=
  match words with
  | [] => .error .noCommand
  | name :: rest =>
    if name = helpName then .error (helpOfWords rest)
    else
      match readers.find? fun r => r.1 = name with
      | some reader => reader.2 rest
      | none => .error (stopOfWords words)

end Runbook.CommandLine

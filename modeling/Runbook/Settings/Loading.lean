import Runbook.File.System
import Runbook.Settings.Basic

/-!
# Runbook.Settings.Loading

Loading settings from a file and the environment. A file that is not there is no error, and neither
is one whose text is no settings: the defaults are used, and the fault is noted. A file that cannot
be read is an error. The environment names the file and overrides two of the fields.
-/

namespace Runbook

/-- What the environment of the program says. -/
structure Environment where
  /-- The value of a variable. -/
  binding? : String → Option String
  /-- The home directory of the account, for an environment that names none. -/
  accountHome : Option (List Char)

namespace Environment

/-- The variables that are looked at. -/
def names : List String :=
  ["HOME", "XDG_CONFIG_HOME", "STEPFLOW_SETTINGS_PATH", "STEPFLOW_EXPRESSION_ENGINE",
    "STEPFLOW_LOG_LEVEL"]

/-- An environment with some bindings. -/
def ofList (bindings : List (String × String)) (accountHome : Option (List Char)) : Environment :=
  ⟨fun name => (bindings.find? fun b => b.1 = name).map (·.2), accountHome⟩

variable (environment : Environment)

/-- A variable whose value is not blank. -/
def nonblank? (name : String) : Option String :=
  (environment.binding? name).filter fun s => !(Text.trim s.toList).isEmpty

/-- The home directory. -/
def home? : Option (List Char) :=
  (((environment.binding? "HOME").map String.toList).filter fun cs => !cs.isEmpty).or
    environment.accountHome

/-- A path in which a tilde at the front stands for the home directory. -/
def expand (path : List Char) : List Char :=
  FilePath.expandTilde (environment.home?.getD ['~']) path

/-- The directory of configuration files. -/
def configDirectory : List Char :=
  match ((environment.binding? "XDG_CONFIG_HOME").map String.toList).filter
      FilePath.isAbsolute with
  | some path => path
  | none =>
    match environment.home? with
    | some home => FilePath.join home ".config".toList
    | none => ['.']

/-- The file that settings are loaded from. -/
def settingsPath : List Char :=
  match environment.nonblank? "STEPFLOW_SETTINGS_PATH" with
  | some path => environment.expand path.toList
  | none =>
    FilePath.join (FilePath.join environment.configDirectory "stepflow".toList)
      "settings.json".toList

end Environment

/-- Why settings cannot be loaded. -/
inductive SettingsError where
  /-- The file cannot be read. -/
  | unreadable (fault : FileFault)
  /-- The text names no engine. -/
  | unknownEngine (text : String)
deriving DecidableEq

/-- The description of an error. -/
def SettingsError.message : SettingsError → String
  | unreadable fault => "settings I/O error: " ++ fault.message
  | unknownEngine text => "invalid value '" ++ text ++ "' for expression_engine"

/-- The engine that a text names. -/
def Engine.ofText (s : String) : Except SettingsError Engine :=
  match Engine.ofText? s with
  | some engine => .ok engine
  | none => .error (.unknownEngine s)

/-- Settings and where they come from. -/
structure LoadedSettings where
  /-- The settings. -/
  settings : Settings
  /-- The file that was looked at. -/
  path : List Char
  /-- What is wrong with its text. -/
  ignored : Option LocatedFault

namespace Settings

/-- The settings with the tilde of their root expanded. -/
def expandRoot (environment : Environment) (settings : Settings) : Settings :=
  { settings with
    workspaceRoot := settings.workspaceRoot.map fun root =>
      String.ofList (environment.expand root.toList) }

/-- Loads the settings in a file. -/
def loadFrom (files : FileSystem) (environment : Environment) (path : List Char) :
    Except SettingsError LoadedSettings :=
  match files.read path with
  | .ok text =>
    match ofText text with
    | .ok settings => .ok ⟨settings.expandRoot environment, path, none⟩
    | .error fault => .ok ⟨default, path, some fault⟩
  | .error .notFound => .ok ⟨default, path, none⟩
  | .error fault => .error (.unreadable fault)

/-- The settings with what the environment overrides. -/
def override (environment : Environment) (settings : Settings) : Except SettingsError Settings :=
  let settings :=
    match environment.nonblank? "STEPFLOW_LOG_LEVEL" with
    | some level => { settings with logLevel := Text.trimmed level }
    | none => settings
  match environment.nonblank? "STEPFLOW_EXPRESSION_ENGINE" with
  | none => .ok settings
  | some text => (Engine.ofText text).map fun engine => { settings with engine := engine }

/-- Loads the settings that a run of the program uses. -/
def load (files : FileSystem) (environment : Environment) : Except SettingsError LoadedSettings :=
  match loadFrom files environment environment.settingsPath with
  | .error e => .error e
  | .ok loaded =>
    (override environment loaded.settings).map fun settings => { loaded with settings := settings }

end Settings

end Runbook

import Runbook.Proofs.File.Home
import Runbook.Proofs.Value.RecordText
import Runbook.Settings.Loading

/-!
# Runbook.Proofs.Settings.Loading

Settings are loaded once. Their text spells all of them (`Settings.ofText_pretty`), and what loading
does to them besides, expanding the tilde of their root, changes nothing the second time
(`Settings.expandRoot_expandRoot`). So the settings that were loaded from any file, or are the
defaults for want of one, are the settings that a file with their text holds
(`Settings.loadFrom_pretty`).
-/

namespace Runbook

/-! ## the home directory -/

namespace Environment

/-- The home directory is the one bound, if it is not empty. -/
theorem home?_of_binding {environment : Environment} {home : String}
    (hhome : environment.binding? "HOME" = some home) (hne : home.toList ≠ []) :
    environment.home? = some home.toList := by
  simp [home?, hhome, hne]

/-- A root expanded twice is expanded once, since what comes out is absolute. -/
theorem expand_expand {environment : Environment} {home : String}
    (hhome : environment.binding? "HOME" = some home)
    (habsolute : FilePath.isAbsolute home.toList = true)
    (htrim : Text.trim home.toList = home.toList) (root : List Char) :
    environment.expand (environment.expand root) = environment.expand root := by
  have hne : home.toList ≠ [] := by
    intro hnil
    rw [hnil] at habsolute
    contradiction
  rw [expand, expand, home?_of_binding hhome hne, Option.getD_some]
  exact FilePath.expandTilde_expandTilde habsolute htrim root

end Environment

namespace Settings

open Reading

/-! ## fields -/

/-- The name of an engine is read as the engine. -/
theorem choice_name (engine : Engine) (rest : List Char) :
    choice Engine.choices engine.name rest = .ok engine := by
  cases engine <;> rfl

/-- A field as it is written, from what is assigned and to where. -/
def writtenField {α : Type} (name : String) (value : Value) (assign : Settings → α → Settings)
    (x : α) : WrittenField Settings :=
  ⟨name, value, fun settings => assign settings x⟩

/-- A field that is read back is written by the format. -/
theorem writes_assigning {α : Type} {name : String} {value : Value} {x : α}
    {field : List Char → Reading α} {assign : Settings → α → Settings}
    (hfield : format.field? name = some (assigning field assign))
    (hread : ∀ rest, field (' ' :: (value.prettyChars 1 ++ rest)) = .ok (x, rest)) :
    format.Writes (writtenField name value assign x) := by
  refine ⟨_, hfield, fun record rest => ?_⟩
  simp only [assigning, writtenField, hread, Except.map]

/-- A text that may be missing is read back, as missing or as the text. -/
theorem optionalField_optionalText (expected : String) (s : Option String) (rest : List Char) :
    optionalField (textField expected) (' ' :: ((Value.optionalText s).prettyChars 1 ++ rest)) =
      .ok (s, rest) := by
  cases s with
  | none => exact optionalField_null _ rest
  | some s => exact optionalField_quoted expected s rest

/-! ## texts -/

/-- The fields of settings as they are written. -/
def written (settings : Settings) : List (WrittenField Settings) := [
  writtenField "expression_engine" (.string settings.engine.name)
    (fun settings x => { settings with engine := x }) settings.engine,
  writtenField "log_level" (.string settings.logLevel)
    (fun settings x => { settings with logLevel := x }) settings.logLevel,
  writtenField "workspace_root" (.optionalText settings.workspaceRoot)
    (fun settings x => { settings with workspaceRoot := x }) settings.workspaceRoot,
  writtenField "default_retry_delay" (.optionalText settings.retryDelay)
    (fun settings x => { settings with retryDelay := x }) settings.retryDelay]

/-- The format writes each field of the settings. -/
theorem writes_written (settings : Settings) : ∀ field ∈ settings.written, format.Writes field := by
  simp only [written, List.forall_mem_cons]
  refine ⟨?engine, ?level, ?root, ?delay, fun field hnone => absurd hnone List.not_mem_nil⟩
  case engine => exact writes_assigning rfl (choiceField_quoted (choice_name settings.engine))
  case level => exact writes_assigning rfl (textField_quoted "a string" settings.logLevel)
  case root =>
    exact writes_assigning rfl (optionalField_optionalText "path string" settings.workspaceRoot)
  case delay =>
    exact writes_assigning rfl (optionalField_optionalText "a string" settings.retryDelay)

theorem nodup_written (settings : Settings) : (settings.written.map WrittenField.name).Nodup := by
  simp [written, writtenField]

/-- All fields assigned, whatever the record was, give the settings. -/
theorem assignAll_written (settings record : Settings) :
    WrittenField.assignAll settings.written record = settings :=
  rfl

/-- **Settings read back.** The text of settings spells the settings. -/
theorem ofText_pretty (settings : Settings) : ofText settings.pretty = .ok settings := by
  have hvalue : settings.toValue = .object (settings.written.map WrittenField.entry) := rfl
  rw [ofText, pretty, hvalue,
    RecordFormat.ofText_pretty settings.writes_written settings.nodup_written, assignAll_written]

/-! ## loading -/

variable {environment : Environment}

/-- Settings expanded twice are expanded once. -/
theorem expandRoot_expandRoot
    (hexpand : ∀ root, environment.expand (environment.expand root) = environment.expand root)
    (settings : Settings) :
    (settings.expandRoot environment).expandRoot environment = settings.expandRoot environment := by
  cases hroot : settings.workspaceRoot <;> simp [expandRoot, hroot, hexpand]

/-- What is loaded is expanded already, or is the defaults, in which nothing is to expand. -/
theorem exists_expandRoot {files : FileSystem} {path : List Char} {loaded : LoadedSettings}
    (hload : loadFrom files environment path = .ok loaded) :
    ∃ settings : Settings, loaded.settings = settings.expandRoot environment := by
  have hdefault : default = default.expandRoot environment := rfl
  unfold loadFrom at hload
  split at hload
  · split at hload <;> obtain rfl := Except.ok.inj hload
    · exact ⟨_, rfl⟩
    · exact ⟨default, hdefault⟩
  · obtain rfl := Except.ok.inj hload
    exact ⟨default, hdefault⟩
  · contradiction

/-- A file with the text of settings is loaded as these settings, with their root expanded. -/
theorem loadFrom_of_read {files : FileSystem} {path : List Char} {settings : Settings}
    (hread : files.read path = .ok settings.pretty) :
    loadFrom files environment path = .ok ⟨settings.expandRoot environment, path, none⟩ := by
  rw [loadFrom, hread]
  simp only [ofText_pretty]

/-- **Loaded settings are settled.** Whatever file the settings were loaded from, a file that holds
their text is loaded as the same settings, with nothing ignored: of any settings the text is loaded
with the root expanded, and the root of these is expanded already. A path that was expanded is
expanded to itself. -/
theorem loadFrom_pretty {home : String} (hhome : environment.binding? "HOME" = some home)
    (habsolute : FilePath.isAbsolute home.toList = true)
    (htrim : Text.trim home.toList = home.toList) {files : FileSystem} {path : List Char}
    {loaded : LoadedSettings} (hload : loadFrom files environment path = .ok loaded) :
    (∀ (files' : FileSystem) (path' : List Char),
      files'.read path' = .ok loaded.settings.pretty →
        loadFrom files' environment path' = .ok ⟨loaded.settings, path', none⟩) ∧
    (∀ (settings : Settings) (files' : FileSystem) (path' : List Char),
      files'.read path' = .ok settings.pretty →
        loadFrom files' environment path' = .ok ⟨settings.expandRoot environment, path', none⟩) ∧
    loaded.settings.expandRoot environment = loaded.settings ∧
    ∀ root, environment.expand (environment.expand root) = environment.expand root := by
  have hexpand := Environment.expand_expand hhome habsolute htrim
  have hsettled : loaded.settings.expandRoot environment = loaded.settings := by
    obtain ⟨settings, hsettings⟩ := exists_expandRoot hload
    rw [hsettings, expandRoot_expandRoot hexpand]
  refine ⟨fun files' path' hread => ?_, fun _ _ _ => loadFrom_of_read, hsettled, hexpand⟩
  rw [loadFrom_of_read hread, hsettled]

/-- A root with blanks around it and a tilde at its front: it is loaded without either, and what is
written then is loaded as it stands. -/
theorem loadFrom_pretty_tilde :
    let environment := Environment.ofList [("HOME", "/home/user")] none
    let files := FileSystem.ofList
      [(["a".toList], .file (some "\x7b\"workspace_root\": \" ~/work \"\x7d"))] []
    let settings : Settings := ⟨.rich, "info", some "/home/user/work", none⟩
    let rewritten := FileSystem.ofList [(["b".toList], .file (some settings.pretty))] []
    loadFrom files environment "/a".toList = .ok ⟨settings, "/a".toList, none⟩ ∧
      loadFrom rewritten environment "/b".toList = .ok ⟨settings, "/b".toList, none⟩ ∧
      settings.expandRoot environment = settings := by
  intro environment files settings rewritten
  have hload : loadFrom files environment "/a".toList = .ok ⟨settings, "/a".toList, none⟩ := by rfl
  have hread : rewritten.read "/b".toList = .ok settings.pretty := by rfl
  have hhome : environment.binding? "HOME" = some "/home/user" := rfl
  obtain ⟨hagain, -, hsettled, -⟩ := loadFrom_pretty hhome (by decide) (by decide) hload
  exact ⟨hload, hagain rewritten "/b".toList hread, hsettled⟩

end Settings

end Runbook

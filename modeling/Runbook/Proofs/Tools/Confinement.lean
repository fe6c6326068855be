import Runbook.Proofs.File.System
import Runbook.Tools.Workbench

/-!
# Runbook.Proofs.Tools.Confinement

What the built-in capabilities can see of the files. They look at files only by the normal forms of
paths that stay inside the root of the workspace, so two trees with the same nodes there are the
same to them (`loadExisting_eq`). Then the registries are the same, level by level
(`registry_eq`), and no sequence of calls can tell the trees apart (`answers_eq`).
-/

namespace Runbook

/-! ## trees that are the same inside a root -/

/-- Two trees have the same nodes at the root directory and below it. -/
def FileSystem.SameInside (root : List Char) (files other : FileSystem) : Prop :=
  ∀ names, (FilePath.normalize root).names <+: names → files.node? names = other.node? names

/-- A path that is accepted against an absolute root is absolute, and its names begin with those of
the root. -/
theorem FilePath.names_of_within? {root path : List Char} {p : PlainPath}
    (hroot : isAbsolute root = true) (h : within? root path = some p) :
    p.Proper ∧ p.absolute = true ∧ (normalize root).names <+: p.names := by
  obtain ⟨htarget, hleading⟩ := within?_eq_some h
  have habsolute : (normalize root).absolute = true := by rw [absolute_normalize, hroot]
  have hcomponents : (normalize root).components ≠ [] := by
    simp [PlainPath.components, habsolute]
  have hp := PlainPath.absolute_eq_of_components hcomponents hleading
  rw [habsolute] at hp
  refine ⟨htarget ▸ proper_normalize _, hp, ?_⟩
  simp only [PlainPath.components, habsolute, hp, if_true, List.singleton_append,
    List.cons_prefix_cons, true_and] at hleading
  exact (List.prefix_map_iff_of_injective fun _ _ => Component.name.inj).mp hleading

namespace WorkflowFile

variable {files other : FileSystem} {path : List Char}

/-- Loading a document depends on what is found at its path, and not on why nothing is found. -/
theorem loadExisting_congr (h : (files.find path).toOption = (other.find path).toOption) :
    loadExisting files path = loadExisting other path := by
  unfold loadExisting FileSystem.exists?
  rw [h]
  cases hfind : files.find path with
  | error fault =>
      rw [hfind] at h
      have hnone : (other.find path).toOption = none := h.symm
      simp [hnone]
  | ok node =>
      have hother : other.find path = .ok node := by
        rw [hfind] at h
        cases hfind' : other.find path with
        | error fault => simp [hfind', Except.toOption] at h
        | ok node' => simpa [hfind', Except.toOption] using h.symm
      simp only [load, FileSystem.read, hfind, hother]

/-- Trees that are the same inside a root have the same documents there. -/
theorem loadExisting_eq {root : List Char} {target : PlainPath} (hroot : FilePath.isAbsolute root)
    (htree : files.IsTree) (hother : other.IsTree) (hsame : files.SameInside root other)
    (h : FilePath.within? root path = some target) :
    loadExisting files target.chars = loadExisting other target.chars := by
  obtain ⟨hproper, habsolute, hnames⟩ := FilePath.names_of_within? hroot h
  apply loadExisting_congr
  rw [FileSystem.find_chars htree hproper habsolute,
    FileSystem.find_chars hother hproper habsolute, hsame _ hnames]

end WorkflowFile

/-! ## the built-in capabilities -/

namespace Workspace

/-- A path argument that is accepted stays inside the root. -/
theorem within?_of_pathArgument {workspace : Workspace} {args : Entries} {path : String}
    {target : PlainPath} (h : workspace.pathArgument args = .ok (path, some target)) :
    FilePath.within? workspace.root path.toList = some target := by
  unfold pathArgument at h
  cases htext : Tools.requiredText args "path" with
  | error e => simp [htext, Except.map] at h
  | ok text =>
      simp only [htext, Except.map, Except.ok.injEq, Prod.mk.injEq] at h
      obtain ⟨rfl, htarget⟩ := h
      exact htarget

section

variable {workspace : Workspace} {other : FileSystem}
  (hroot : FilePath.isAbsolute workspace.root = true) (htree : workspace.files.IsTree)
  (hother : other.IsTree) (hsame : workspace.files.SameInside workspace.root other)

include hroot htree hother hsame

/-- Validation answers alike over files that agree inside the root. -/
theorem workflowValidate_eq :
    { workspace with files := other }.workflowValidate = workspace.workflowValidate := by
  funext args
  have hpath : { workspace with files := other }.pathArgument args = workspace.pathArgument args :=
    rfl
  unfold workflowValidate
  rw [hpath]
  cases hargument : workspace.pathArgument args with
  | error e => rfl
  | ok pair =>
      obtain ⟨path, target⟩ := pair
      cases target with
      | none => rfl
      | some target =>
          have hwithin := within?_of_pathArgument hargument
          simp only [Except.map, WorkflowFile.validate,
            WorkflowFile.loadExisting_eq hroot htree hother hsame hwithin]

/-- So does a run. -/
theorem workflowRun_eq (nested : Registry Workbench) :
    { workspace with files := other }.workflowRun nested = workspace.workflowRun nested := by
  funext args bench
  have hpath : { workspace with files := other }.pathArgument args = workspace.pathArgument args :=
    rfl
  have hinterpreter : { workspace with files := other }.interpreter nested =
      workspace.interpreter nested := rfl
  unfold workflowRun
  rw [hpath]
  cases hargument : workspace.pathArgument args with
  | error e => rfl
  | ok pair =>
      obtain ⟨path, target⟩ := pair
      cases target with
      | none => rfl
      | some target =>
          have hwithin := within?_of_pathArgument hargument
          simp only [runNested, WorkflowFile.run, hinterpreter,
            WorkflowFile.loadExisting_eq hroot htree hother hsame hwithin]

/-- Files outside the root have no part in any level of the registry. -/
theorem registryAt_eq (levels : Nat) :
    { workspace with files := other }.registryAt levels = workspace.registryAt levels := by
  have hover : ∀ nested, { workspace with files := other }.registryOver nested =
      workspace.registryOver nested := by
    intro nested
    simp only [registryOver, workflowValidate_eq hroot htree hother hsame,
      workflowRun_eq hroot htree hother hsame]
  induction levels with
  | zero => exact hover []
  | succ levels ih => rw [registryAt, registryAt, ih, hover]

end

/-! ## sequences of calls -/

/-- A call of a capability, at a time that the clock tells. -/
structure Call where
  /-- The name of the capability. -/
  name : String
  /-- The arguments. -/
  args : Entries
  /-- The time. -/
  now : String

/-- Makes calls one after the other. The answers tell what each capability reported or raised, and
nothing for a name that is not registered. -/
def answers (workspace : Workspace) :
    List Call → Workbench → List (Option (Except String Report)) × Workbench
  | [], bench => ([], bench)
  | call :: calls, bench =>
    match Registry.find? call.name workspace.registry with
    | none =>
      let rest := answers workspace calls bench
      (none :: rest.1, rest.2)
    | some capability =>
      let answered := capability.invoke call.args { bench with now := call.now }
      let rest := answers workspace calls answered.2
      (some answered.1 :: rest.1, rest.2)

/-- **Capabilities cannot observe files outside the workspace.** If two trees have the same nodes
inside an absolute root, then every sequence of calls has the same answers with either of them, and
leaves the same workbench: the same sessions and the same counter of nested runs. -/
theorem answers_eq (workspace : Workspace) (other : FileSystem)
    (hroot : FilePath.isAbsolute workspace.root = true) (htree : workspace.files.IsTree)
    (hother : other.IsTree) (hsame : workspace.files.SameInside workspace.root other)
    (calls : List Call) (bench : Workbench) :
    { workspace with files := other }.answers calls bench = workspace.answers calls bench := by
  have hregistry : { workspace with files := other }.registry = workspace.registry :=
    registryAt_eq hroot htree hother hsame maxNestedRuns
  induction calls generalizing bench with
  | nil => rfl
  | cons call calls ih =>
      rw [answers, answers, hregistry]
      cases Registry.find? call.name workspace.registry with
      | none => simp only [ih]
      | some capability => simp only [ih]

/-! ### a file beside the root -/

/-- A tree with a directory `w`, and beside it a file `p` with the given text. -/
def besideRoot (text : String) : FileSystem where
  node? names :=
    if names = [] ∨ names = [['w']] then some .directory
    else if names = [['p']] then some (.file (some text))
    else none
  current := []

/-- The files with one beside the root are a tree. -/
theorem besideRoot_isTree (text : String) : (besideRoot text).IsTree where
  root := rfl
  above names name h := by
    simp only [besideRoot] at h ⊢
    split at h
    · next hdirectory =>
        have hnames : names = [] := by simp_all [List.append_eq_singleton_iff]
        simp [hnames]
    · split at h
      · next hfile =>
          have hnames : names = [] := by simp_all [List.append_eq_singleton_iff]
          simp [hnames]
      · contradiction

/-- They agree inside the root, whatever stands beside it. -/
theorem besideRoot_sameInside (text text' : String) :
    (besideRoot text).SameInside ['/', 'w'] (besideRoot text') := by
  intro names hnames
  have hroot : (FilePath.normalize ['/', 'w']).names = [['w']] := by decide
  have hfile : names ≠ [['p']] := by
    rintro rfl
    rw [hroot] at hnames
    simp at hnames
  simp [besideRoot, hfile]

/-- A workspace with the directory `w` as its root. -/
def workspaceBeside (text : String) : Workspace :=
  ⟨['/', 'w'], Resolver.rich, none, besideRoot text, true⟩

/-- Two calls that ask for the file beside the root get the same answers, whatever it holds. -/
theorem answers_eq_besideRoot :
    FilePath.isAbsolute ['/', 'w'] = true ∧ (besideRoot "a").IsTree ∧ (besideRoot "b").IsTree ∧
      (besideRoot "a").SameInside ['/', 'w'] (besideRoot "b") ∧
      (besideRoot "a").node? [['p']] ≠ (besideRoot "b").node? [['p']] ∧
      (workspaceBeside "b").answers
        [⟨"workflow_validate", [("path", .string "/w/../p")], "now"⟩,
          ⟨"workflow_run", [("path", .string "../p")], "now"⟩] (.fresh "") =
      (workspaceBeside "a").answers
        [⟨"workflow_validate", [("path", .string "/w/../p")], "now"⟩,
          ⟨"workflow_run", [("path", .string "../p")], "now"⟩] (.fresh "") :=
  ⟨rfl, besideRoot_isTree "a", besideRoot_isTree "b", besideRoot_sameInside "a" "b",
    by simp [besideRoot],
    answers_eq (workspaceBeside "a") (besideRoot "b") rfl (besideRoot_isTree "a")
      (besideRoot_isTree "b") (besideRoot_sameInside "a" "b") _ _⟩

end Workspace

end Runbook

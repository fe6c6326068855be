import Runbook.CommandLine.Reply
import Runbook.Proofs.File.Ancestors

/-!
# Runbook.Proofs.CommandLine.Root

Whether a workflow file is inside the root directory that is detected for it. The root is one of the
directories above the file in the text of its path, and the path may leave it again by double dots
behind it. The file is inside the root if and only if the way from the root to it returns to the
root (`within?_detectRoot_iff`); it need not be (`within?_detectRoot_sibling`).
-/

namespace Runbook.CommandLine

open FilePath

/-- The detected root is an ancestor of the file. -/
theorem detectRoot_mem_ancestors (files : FileSystem) (path : List Char) :
    detectRoot files path ∈ ancestors ((parent? path).getD ['.']) := by
  simp only [detectRoot]
  cases hfound : (ancestors ((parent? path).getD ['.'])).find? fun candidate =>
      files.exists? (join candidate ".git".toList) with
  | some candidate => exact List.mem_of_find?_eq_some hfound
  | none => exact self_mem_ancestors _

/-- The components of a path that has a parent are those of the root and then a way without a slash
at its front. -/
theorem components_detectRoot (files : FileSystem) {path : List Char}
    (hpath : isAbsolute path = true) (hparent : parent? path ≠ none) :
    ∃ way, components path = components (detectRoot files path) ++ way ∧ .root ∉ way := by
  obtain ⟨parent, hparent⟩ := Option.ne_none_iff_exists'.mp hparent
  obtain ⟨habsolute, last, hlast⟩ := parent?_of_isAbsolute hpath hparent
  have hmem := detectRoot_mem_ancestors files path
  rw [hparent, Option.getD_some] at hmem
  obtain ⟨hroot, hleading⟩ := mem_ancestorsSteps habsolute hmem
  obtain ⟨way, hway⟩ := hleading.trans ⟨[last], hlast.symm⟩
  refine ⟨way, ?_, fun hmem => root_notMem_steps path (hway ▸ List.mem_append_right _ hmem)⟩
  rw [components_of_isAbsolute hpath, components_of_isAbsolute hroot, ← hway, List.cons_append]

/-- Without a parent the root leads nowhere. -/
theorem normalize_detectRoot_of_none (files : FileSystem) {path : List Char}
    (hparent : parent? path = none) :
    FilePath.normalize (detectRoot files path) = ⟨false, []⟩ := by
  have hmem := detectRoot_mem_ancestors files path
  rw [hparent, Option.getD_none] at hmem
  have hall : ∀ directory ∈ ancestors ['.'], FilePath.normalize directory = ⟨false, []⟩ := by
    decide
  exact hall _ hmem

/-- **The detected root.** A path that has a parent has the components of its root first. It is
inside the root if and only if the way along the other ones returns to the root, and so it is if no
double dot is among them. -/
theorem within?_detectRoot_iff (files : FileSystem) {path : List Char}
    (hpath : isAbsolute path = true) :
    let root := detectRoot files path
    let rest := (components path).drop (components root).length
    (parent? path ≠ none → components path = components root ++ rest) ∧
      (within? root path = some (FilePath.normalize path) ↔
        (Way.along rest).ReturnsTo (FilePath.normalize root)) ∧
      (.up ∉ rest → within? root path = some (FilePath.normalize path)) := by
  intro root rest
  have hiff : within? root path = some (FilePath.normalize path) ↔
      (Way.along rest).ReturnsTo (FilePath.normalize root) := by
    by_cases hparent : parent? path = none
    · -- both sides hold: everything is inside a root that leads nowhere
      have hnowhere : FilePath.normalize root = ⟨false, []⟩ :=
        normalize_detectRoot_of_none files hparent
      rw [within?_eq_some_normalize_iff root hpath, hnowhere, Way.ReturnsTo, List.rtake_nil]
      exact iff_of_true List.nil_prefix List.nil_prefix
    · obtain ⟨way, hsplit, hway⟩ := components_detectRoot files hpath hparent
      have hrest : rest = way := by simp [rest, root, hsplit]
      rw [hrest]
      exact within?_append_iff hpath hsplit hway
  refine ⟨fun hparent => ?_, hiff, fun hup => hiff.mpr (Way.returnsTo_of_up_notMem _ hup)⟩
  obtain ⟨way, hsplit, -⟩ := components_detectRoot files hpath hparent
  simp [rest, root, hsplit]

/-- A double dot in front of the root does no harm. -/
theorem within?_detectRoot_ahead :
    let files := FileSystem.ofList [([['w'], ".git".toList], .directory),
      ([['w'], ['x']], .directory), ([['w'], ['f']], .file (some "steps: []"))] []
    let path := "/w/x/../f".toList
    isAbsolute path = true ∧ detectRoot files path = "/w/x/..".toList ∧
      .up ∉ (components path).drop (components (detectRoot files path)).length ∧
      within? (detectRoot files path) path = some ⟨true, [['w'], ['f']]⟩ := by
  intro files path
  have hpath : isAbsolute path = true := by decide
  have hahead : .up ∉ (components path).drop (components (detectRoot files path)).length := by
    decide
  have hnormal : FilePath.normalize path = ⟨true, [['w'], ['f']]⟩ := by decide
  exact ⟨hpath, by decide, hahead,
    hnormal ▸ (within?_detectRoot_iff files hpath).2.2 hahead⟩

/-- A path may leave its root for a sibling of it: the repository is not above the file. -/
theorem within?_detectRoot_sibling :
    let files := FileSystem.ofList
      [([['a'], ".git".toList], .directory), ([['b'], ['f']], .file (some "steps: []"))] []
    let path := "/a/../b/f".toList
    isAbsolute path = true ∧ (files.read path).toOption = some "steps: []" ∧
      detectRoot files path = "/a".toList ∧
      FilePath.normalize path = ⟨true, [['b'], ['f']]⟩ ∧
      within? (detectRoot files path) path = none := by
  decide

end Runbook.CommandLine

import Runbook.File.System
import Runbook.Proofs.File.Path

/-!
# Runbook.Proofs.File.System

Looking up the normal form of an absolute path. In a tree everything stands in directories
(`FileSystem.IsTree`), so the walk from the root comes to the node under the names of the path, or
there is none: what is found depends on this node alone (`FileSystem.find_chars`).
-/

namespace Runbook

namespace FileSystem

variable {files other : FileSystem}

/-- The files are a tree: the root is a directory, and whatever there is stands in a directory. -/
structure IsTree (files : FileSystem) : Prop where
  /-- The root is a directory. -/
  root : files.node? [] = some .directory
  /-- What stands under a name stands in a directory. -/
  above : ∀ names name, (files.node? (names ++ [name])).isSome → files.node? names = some .directory

/-- In a tree all directories on the way to a node exist. -/
theorem IsTree.directory (htree : files.IsTree) {names rest : List (List Char)} (hrest : rest ≠ [])
    (h : (files.node? (names ++ rest)).isSome) : files.node? names = some .directory := by
  induction rest generalizing names with
  | nil => contradiction
  | cons name rest ih =>
      apply htree.above names name
      cases rest with
      | nil => exact h
      | cons next rest =>
          rw [List.append_cons] at h
          simp [ih (by simp) h]

/-- The walk along proper names comes to the node under them, unless a name is too long. -/
theorem walk_names (htree : files.IsTree) (at_ : List (List Char)) {names : List (List Char)}
    (hnames : ∀ name ∈ names, FilePath.component? name = some (.name name)) :
    (files.walk at_ names).toOption =
      if ∀ name ∈ names, byteLength name ≤ 255 then files.node? (at_ ++ names) else none := by
  induction names generalizing at_ with
  | nil =>
      rw [walk, List.append_nil]
      cases files.node? at_ <;> simp [Except.toOption]
  | cons name names ih =>
      have hname := hnames name List.mem_cons_self
      have hsingle : ¬(name = [] ∨ name = ['.']) := by
        intro h
        simp [FilePath.component?, h] at hname
      have hdouble : ¬name = ['.', '.'] := by
        intro h
        simp [FilePath.component?, h] at hname
      -- a tree has nothing under what is no directory, so that the walk stops where there is
      -- nothing to be found
      have hmissing : files.node? at_ ≠ some .directory →
          files.node? (at_ ++ name :: names) = none := by
        intro hnone
        by_contra hsome
        exact hnone (htree.directory (by simp) (Option.isSome_iff_ne_none.mpr hsome))
      rw [walk]
      cases hat : files.node? at_ with
      | none => simp [hmissing (by simp [hat]), Except.toOption]
      | some node =>
          cases node with
          | file text => simp [hmissing (by simp [hat]), Except.toOption]
          | directory =>
              simp only [if_neg hsingle, if_neg hdouble]
              by_cases hlong : 255 < byteLength name
              · have hnot : ¬byteLength name ≤ 255 := by omega
                simp [if_pos hlong, hnot, Except.toOption]
              · have hshort : byteLength name ≤ 255 := by omega
                rw [if_neg hlong, ih _ fun n hn => hnames n (List.mem_cons_of_mem _ hn)]
                simp [hshort]

/-- What is found under the normal form of an absolute path is the node under its names, if any,
unless the path is too long or is no text for a path. -/
theorem find_chars (htree : files.IsTree) {p : PlainPath} (hp : p.Proper)
    (habsolute : p.absolute = true) :
    (files.find p.chars).toOption =
      if Char.ofNat 0 ∉ p.chars ∧ byteLength p.chars ≤ maxPathLength ∧
        ∀ name ∈ p.names, byteLength name ≤ 255 then files.node? p.names else none := by
  have hnonempty : p.chars.isEmpty = false := by simp [PlainPath.chars, habsolute]
  have hstart : FilePath.isAbsolute p.chars = true := by
    rw [FilePath.isAbsolute_chars hp, habsolute]
  have hwalk : (files.walk [] (Text.splitOnChar '/' p.chars)).toOption =
      if ∀ name ∈ p.names, byteLength name ≤ 255 then files.node? p.names else none := by
    obtain ⟨absolute, names⟩ := p
    obtain rfl : absolute = true := habsolute
    have hsplit : Text.splitOnChar '/' (PlainPath.chars ⟨true, names⟩) =
        [] :: Text.splitOnChar '/' (PlainPath.joinNames names) := by
      simp [PlainPath.chars, Text.splitOnChar]
    rw [hsplit, walk, htree.root]
    simp only [true_or, if_true]
    cases names with
    | nil => simp [PlainPath.joinNames, Text.splitOnChar, walk, htree.root, Except.toOption]
    | cons name names =>
        rw [PlainPath.splitOnChar_joinNames fun piece hpiece => (hp piece hpiece).2,
          walk_names htree [] fun piece hpiece => (hp piece hpiece).1, List.nil_append]
  rw [find, if_neg (by simp [hnonempty]), hstart, if_pos rfl]
  by_cases hnul : Char.ofNat 0 ∈ p.chars
  · rw [if_pos (List.contains_iff_mem.mpr hnul), if_neg fun h => h.1 hnul]
    rfl
  · rw [if_neg fun h => hnul (List.contains_iff_mem.mp h)]
    by_cases hlong : maxPathLength < byteLength p.chars
    · rw [if_pos hlong, if_neg (by omega)]
      rfl
    · have hshort : byteLength p.chars ≤ maxPathLength := by omega
      rw [if_neg hlong, hwalk]
      simp only [hnul, hshort, not_false_eq_true, true_and]

end FileSystem

end Runbook

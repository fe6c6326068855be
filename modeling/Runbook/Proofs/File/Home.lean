import Runbook.Proofs.File.Joining
import Runbook.Proofs.Text.Blank

/-!
# Runbook.Proofs.File.Home

The tilde at the front of a path. What it stands for is put before the path once and for all: with a
home directory that is absolute and has no blank at its ends, the expanded path is one that
expanding leaves alone (`expandTilde_expandTilde`).
-/

namespace Runbook.FilePath

open Text

/-! ## joined paths -/

/-- What is joined to an absolute path is absolute. -/
theorem isAbsolute_join {base : List Char} (hbase : isAbsolute base = true) (path : List Char) :
    isAbsolute (join base path) = true := by
  cases hpath : isAbsolute path with
  | true => simp [join, hpath]
  | false =>
      have hne : base ≠ [] := by
        rintro rfl
        contradiction
      rw [(steps_join hne hpath).2, hbase]

/-- A joined path ends where its second part does. -/
theorem getLast?_join (base : List Char) {path : List Char} (hpath : path ≠ []) :
    (join base path).getLast? = path.getLast? := by
  have hlast : path.getLast? = some (path.getLast hpath) := List.getLast?_eq_some_getLast hpath
  unfold join
  split_ifs <;> simp [hlast, List.getLast?_cons]

/-- A path that is joined with nothing ends in a slash. -/
theorem getLast?_join_nil {base : List Char} (hbase : base ≠ []) :
    (join base []).getLast? = some '/' := by
  have hempty : base.isEmpty = false := by simpa using hbase
  by_cases hslash : base.getLast? = some '/' <;> simp [join, isAbsolute, hempty, hslash]

/-! ## expanding -/

/-- A tilde alone, a tilde with either slash behind it, or anything else. -/
theorem expandTilde_cases (home path : List Char) :
    expandTilde home path = home ∨
      (∃ slash rest, trim path = '~' :: slash :: rest ∧ expandTilde home path = join home rest) ∨
      expandTilde home path = trim path := by
  unfold expandTilde
  split
  · exact .inl rfl
  · next rest htrim => exact .inr (.inl ⟨'/', rest, htrim, rfl⟩)
  · next rest htrim => exact .inr (.inl ⟨'\\', rest, htrim, rfl⟩)
  · exact .inr (.inr rfl)

/-- Outer blanks do not matter for the home directory. -/
theorem expandTilde_trim (home path : List Char) :
    expandTilde home (trim path) = expandTilde home path := by
  rw [expandTilde, trim_trim, expandTilde]

/-- An absolute path has no tilde at its front. -/
theorem expandTilde_of_isAbsolute (home : List Char) {path : List Char}
    (habsolute : isAbsolute path = true) (htrim : trim path = path) :
    expandTilde home path = path := by
  cases path with
  | nil => contradiction
  | cons c rest =>
      obtain rfl : c = '/' := by simpa [isAbsolute] using habsolute
      rw [expandTilde, htrim]
      rfl

/-- An absolute path that does not end with a blank is left alone. -/
theorem trim_eq_of_isAbsolute {path : List Char} (habsolute : isAbsolute path = true) {c : Char}
    (hlast : path.getLast? = some c) (hc : isBlank c = false) : trim path = path := by
  obtain ⟨front, hfront⟩ := List.getLast?_eq_some_iff.mp hlast
  obtain ⟨rest, hrest⟩ : ∃ rest, path = '/' :: rest :=
    List.head?_eq_some_iff.mp (by simpa [isAbsolute] using habsolute)
  exact Solid.trim_eq ⟨⟨'/', rest, hrest, by decide⟩, ⟨front, c, hfront, hc⟩⟩

/-- A path below the home directory has no blank at its end, for the path behind the tilde has
none. -/
theorem trim_join_of_tilde {home path rest : List Char} {slash : Char}
    (hhome : isAbsolute home = true) (hpath : trim path = '~' :: slash :: rest) :
    trim (join home rest) = join home rest := by
  have habsolute := isAbsolute_join hhome rest
  by_cases hrest : rest = []
  · have hne : home ≠ [] := by
      rintro rfl
      contradiction
    rw [hrest] at habsolute ⊢
    exact trim_eq_of_isAbsolute habsolute (getLast?_join_nil hne) (by decide)
  · have hsolid : Solid (trim path) := (trim_solid path).resolve_left (by simp [hpath])
    obtain ⟨front, c, hends, hc⟩ := hsolid.ends
    have hlast : rest.getLast? = some c := by
      have htext : ('~' :: slash :: rest).getLast? = some c := by
        rw [← hpath, hends, List.getLast?_concat]
      obtain ⟨d, more, rfl⟩ := List.exists_cons_of_ne_nil hrest
      simpa using htext
    exact trim_eq_of_isAbsolute habsolute ((getLast?_join home hrest).trans hlast) hc

/-- **A path is expanded once.** What the tilde was expanded to has none at its front, and nothing
to trim. -/
theorem expandTilde_expandTilde {home : List Char} (habsolute : isAbsolute home = true)
    (htrim : trim home = home) (path : List Char) :
    expandTilde home (expandTilde home path) = expandTilde home path := by
  rcases expandTilde_cases home path with hhome | ⟨slash, rest, hpath, hjoin⟩ | hplain
  · rw [hhome]
    exact expandTilde_of_isAbsolute home habsolute htrim
  · rw [hjoin]
    exact expandTilde_of_isAbsolute home (isAbsolute_join habsolute rest)
      (trim_join_of_tilde habsolute hpath)
  · rw [hplain, expandTilde_trim, hplain]

end Runbook.FilePath

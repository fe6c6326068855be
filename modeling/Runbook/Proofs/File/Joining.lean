import Runbook.Proofs.File.Ancestors

/-!
# Runbook.Proofs.File.Joining

Normal forms of joined paths. A path is read from a plain path by entering its components one after
the other (`PlainPath.follow`), and a joined path is read by reading its two parts one after the
other (`FilePath.follow_join`), also where a double dot of the second part leaves the first one or
there is nothing left to leave. So the normal form of a joined path depends on the first part by its
normal form only (`FilePath.normalize_composes`).

Which names are left in a normal form is told by the way along the components: those that are
entered behind the last double dot that climbs past the start (`FilePath.normalize_eq_down`).
-/

namespace Runbook

/-- Where a path leads to from a plain path. -/
def PlainPath.follow (p : PlainPath) (path : List Char) : PlainPath :=
  (FilePath.components path).foldl .enter p

namespace FilePath

open PlainPath

/-! ## reading a path from another one -/

/-- The slash or the dot at the front of a path decides where its steps start. -/
theorem follow_eq (p : PlainPath) (path : List Char) :
    p.follow path = (steps path).foldl .enter (if isAbsolute path then ⟨true, []⟩ else p) := by
  unfold follow components steps
  rw [List.foldl_append]
  congr 1
  split
  · simp [enter]
  · split <;> simp [enter]

/-- An absolute path is followed from the root. -/
theorem follow_of_isAbsolute (p : PlainPath) {path : List Char} (h : isAbsolute path = true) :
    p.follow path = normalize path := by
  rw [follow_eq, if_pos h, normalize, ← follow, follow_eq, if_pos h]

/-- An empty path leads nowhere else. -/
theorem follow_nil (p : PlainPath) : p.follow [] = p := rfl

/-- A path is absolute by its front. -/
theorem isAbsolute_append {front : List Char} (h : front ≠ []) (back : List Char) :
    isAbsolute (front ++ back) = isAbsolute front := by
  cases front with
  | nil => contradiction
  | cons c front => simp [isAbsolute]

/-- The slash between two paths, be it the last character of the first one or not, only separates
their steps. -/
theorem steps_join {base path : List Char} (hbase : base ≠ []) (hpath : isAbsolute path = false) :
    steps (join base path) = steps base ++ steps path ∧
      isAbsolute (join base path) = isAbsolute base := by
  have hempty : base.isEmpty = false := by simpa using hbase
  simp only [join, hpath, hempty, Bool.or_self, Bool.false_eq_true, if_false]
  split
  · next hslash =>
      obtain ⟨front, rfl⟩ := List.getLast?_eq_some_iff.mp hslash
      constructor
      · rw [List.append_assoc, List.singleton_append, steps_append, steps_slash]
      · exact isAbsolute_append hbase path
  · constructor
    · exact steps_append base path
    · exact isAbsolute_append hbase _

/-- A joined path is read by reading the first path and then the second one. -/
theorem follow_join (p : PlainPath) (base path : List Char) :
    p.follow (join base path) = (p.follow base).follow path := by
  cases hpath : isAbsolute path with
  | true =>
      have hjoin : join base path = path := by simp [join, hpath]
      rw [hjoin, follow_of_isAbsolute p hpath, follow_of_isAbsolute _ hpath]
  | false =>
      by_cases hbase : base = []
      · subst hbase
        have hjoin : join [] path = path := by simp [join]
        rw [hjoin, follow_nil]
      · obtain ⟨hsteps, habsolute⟩ := steps_join hbase hpath
        rw [follow_eq p, hsteps, habsolute, List.foldl_append, ← follow_eq,
          follow_eq (p.follow base), hpath]
        simp

/-! ## normal forms -/

/-- Entering names adds them. -/
theorem foldl_enter_names (p : PlainPath) (names : List (List Char)) :
    (names.map Component.name).foldl .enter p = { p with names := p.names ++ names } := by
  induction names generalizing p with
  | nil => simp
  | cons name names ih => simp [ih, enter]

/-- A path whose names stand for themselves is its own normal form. -/
theorem normalize_chars {p : PlainPath} (hp : p.Proper) : normalize p.chars = p := by
  rw [normalize, components_chars hp]
  obtain ⟨absolute, names⟩ := p
  cases absolute <;> simp [PlainPath.components, foldl_enter_names, enter]

/-- The names of a normal form are those that the way along the path goes down; the double dots that
climb past the start have no effect. -/
theorem normalize_eq_down (path : List Char) :
    normalize path = ⟨isAbsolute path, (Way.along (steps path)).down⟩ := by
  rw [normalize, ← follow, follow_eq, ← Way.target_along _ (root_notMem_steps path)]
  cases isAbsolute path <;> simp [Way.target]

/-- **Lexical normalisation.** The normal form of a path is normal: its text is its own normal form,
and has no dots among its components. It is absolute as the path is, and has the names that the way
along the path goes down. A path that is joined to another one can as well be joined to the normal
form of that one, be the two absolute or not, and wherever their double dots lead. -/
theorem normalize_composes (base path : List Char) :
    normalize (normalize base).chars = normalize base ∧
    (.here ∉ components (normalize base).chars ∧ .up ∉ components (normalize base).chars) ∧
    normalize base = ⟨isAbsolute base, (Way.along (steps base)).down⟩ ∧
    normalize (join base path) = normalize (join (normalize base).chars path) := by
  have hproper := proper_normalize base
  have hnormal := normalize_chars hproper
  refine ⟨hnormal, ?_, normalize_eq_down base, ?_⟩
  · rw [components_chars hproper]
    constructor
    · intro hhere
      exact (dotless_components _ hhere).1 rfl
    · intro hup
      exact (dotless_components _ hup).2 rfl
  · calc normalize (join base path)
        = (normalize base).follow path := follow_join ⟨false, []⟩ base path
      _ = (normalize (normalize base).chars).follow path := by rw [hnormal]
      _ = normalize (join (normalize base).chars path) :=
          (follow_join ⟨false, []⟩ (normalize base).chars path).symm

-- the second double dot climbs past the start, and so does the one of the joined path
example : normalize (join "a/../..".toList "../b".toList) = ⟨false, [['b']]⟩ ∧
    (normalize "a/../..".toList).chars = [] := by decide

end FilePath

end Runbook

import Runbook.File.Path
import Runbook.Proofs.Text.Search

/-!
# Runbook.Proofs.File.Path

What the normal form of a path looks like, and what it means that a path stays inside a root
directory. A normal form has only names that stand for themselves (`PlainPath.Proper`), so that its
text is read as the components that it was written from (`components_chars`).

A path that is accepted is inside the root, with the root's components first and without dots, and
it is absolute if and only if the root is; the one exception is a root that leads nowhere, such as a
single dot, which accepts every absolute path (`within?_contained`).
-/

namespace Runbook

/-! ## plain paths -/

namespace PlainPath

/-- No name of the path is empty, is one of the dots, or has a slash in it. -/
def Proper (p : PlainPath) : Prop :=
  ∀ name ∈ p.names, FilePath.component? name = some (.name name) ∧ '/' ∉ name

theorem joinNames_cons_cons (name next : List Char) (names : List (List Char)) :
    joinNames (name :: next :: names) = name ++ '/' :: joinNames (next :: names) :=
  rfl

/-- Joined names are split again, since no name has a slash. -/
theorem splitOnChar_joinNames {name : List Char} {names : List (List Char)}
    (h : ∀ piece ∈ name :: names, '/' ∉ piece) :
    Text.splitOnChar '/' (joinNames (name :: names)) = name :: names := by
  induction names generalizing name with
  | nil => exact Text.splitOnChar_of_notMem (h name List.mem_cons_self)
  | cons next names ih =>
      rw [joinNames_cons_cons, Text.splitOnChar_append (h name List.mem_cons_self),
        ih fun piece hpiece => h piece (List.mem_cons_of_mem _ hpiece)]

/-- The pieces of the names, with slashes between them, are the names. -/
theorem filterMap_joinNames {p : PlainPath} (hp : p.Proper) :
    (Text.splitOnChar '/' (joinNames p.names)).filterMap FilePath.component? =
      p.names.map .name := by
  have hcomponents : p.names.filterMap FilePath.component? = p.names.map .name := by
    rw [← List.filterMap_eq_map]
    exact List.filterMap_congr fun name hname => (hp name hname).1
  obtain ⟨absolute, names⟩ := p
  cases names with
  | nil => rfl
  | cons name names =>
      rw [splitOnChar_joinNames fun piece hpiece => (hp piece hpiece).2]
      exact hcomponents

/-- A plain path has no dots among its components. -/
theorem dotless_components (p : PlainPath) {c : Component} (h : c ∈ p.components) :
    c ≠ .here ∧ c ≠ .up := by
  rcases List.mem_append.mp h with hroot | hname
  · split at hroot <;> simp at hroot
    simp [hroot]
  · obtain ⟨name, -, rfl⟩ := List.mem_map.mp hname
    simp

/-- Only the empty path has no components. -/
theorem components_eq_nil_iff {p : PlainPath} : p.components = [] ↔ p = ⟨false, []⟩ := by
  obtain ⟨absolute, names⟩ := p
  cases absolute <;> simp [components]

/-- A path behind a plain path that has components is absolute exactly if that one is. -/
theorem absolute_eq_of_components {p q : PlainPath} (hp : p.components ≠ [])
    (h : p.components <+: q.components) : q.absolute = p.absolute := by
  obtain ⟨rest, hrest⟩ := h
  obtain ⟨absolute, names⟩ := p
  obtain ⟨absolute', names'⟩ := q
  cases absolute with
  | true =>
      cases absolute' with
      | true => rfl
      | false =>
          -- a root would be among the names
          cases names' <;> simp [components] at hrest
  | false =>
      cases names with
      | nil => exact absurd rfl hp
      | cons name names => cases absolute' <;> simp [components] at hrest ⊢

end PlainPath

namespace FilePath

open PlainPath

/-! ## components -/

/-- A piece is a step up or its own name. -/
theorem component?_eq_some {piece : List Char} {c : Component} (h : component? piece = some c) :
    c = .up ∨ c = .name piece := by
  unfold component? at h
  split at h
  · contradiction
  · split at h
    · exact .inl (Option.some.inj h).symm
    · exact .inr (Option.some.inj h).symm

/-- A name among the components of a path is a piece of it that stands for itself. -/
theorem component?_of_name_mem {cs name : List Char} (h : Component.name name ∈ components cs) :
    component? name = some (.name name) ∧ '/' ∉ name := by
  rcases List.mem_append.mp h with hlead | hpiece
  · split at hlead
    · simp at hlead
    · split at hlead <;> simp at hlead
  · obtain ⟨piece, hpiece, hcomponent⟩ := List.mem_filterMap.mp hpiece
    rcases component?_eq_some hcomponent with hup | hname
    · contradiction
    · obtain rfl := Component.name.inj hname
      exact ⟨hcomponent, Text.notMem_of_mem_splitOnChar hpiece⟩

/-- The text of a path without dots has the components of the path. -/
theorem components_chars {p : PlainPath} (hp : p.Proper) : components p.chars = p.components := by
  have hnames := filterMap_joinNames hp
  obtain ⟨absolute, names⟩ := p
  cases absolute with
  | true =>
      have hsplit : Text.splitOnChar '/' ('/' :: joinNames names) =
          [] :: Text.splitOnChar '/' (joinNames names) := by
        simp [Text.splitOnChar]
      have hempty : component? [] = none := rfl
      simp [components, PlainPath.components, chars, isAbsolute, hsplit, hempty, hnames]
  | false =>
      -- a relative path must not start with a slash or a dot of its own
      have hstart : isAbsolute (joinNames names) = false ∧
          (Text.splitOnChar '/' (joinNames names)).head? ≠ some ['.'] := by
        cases names with
        | nil => decide
        | cons name names =>
            obtain ⟨hself, hslash⟩ := hp name List.mem_cons_self
            rw [splitOnChar_joinNames fun piece hpiece => (hp piece hpiece).2]
            cases name with
            | nil => simp [component?] at hself
            | cons c name =>
                have hhead : (joinNames ((c :: name) :: names)).head? = some c := by
                  cases names <;> rfl
                rw [List.mem_cons, not_or] at hslash
                refine ⟨by simp [isAbsolute, hhead, Ne.symm hslash.1], ?_⟩
                intro hdot
                rw [List.head?_cons, Option.some.injEq] at hdot
                simp [hdot, component?] at hself
      simp only [components, chars, PlainPath.components, hstart.1, Bool.false_eq_true, if_false,
        if_neg hstart.2, List.nil_append]
      exact hnames

/-- The components of a path without the one for its front. -/
def steps (cs : List Char) : List Component := (Text.splitOnChar '/' cs).filterMap component?

/-- An absolute path starts at the root and takes its steps. -/
theorem components_of_isAbsolute {cs : List Char} (h : isAbsolute cs = true) :
    components cs = .root :: steps cs := by
  simp [components, h, steps]

/-- No step leads to the root. -/
theorem root_notMem_steps (cs : List Char) : .root ∉ steps cs := by
  intro h
  obtain ⟨piece, -, hcomponent⟩ := List.mem_filterMap.mp h
  rcases component?_eq_some hcomponent with hup | hname <;> contradiction

/-- A path has the root among its components just when it is absolute. -/
theorem root_mem_components (cs : List Char) :
    Component.root ∈ components cs ↔ isAbsolute cs = true := by
  have hpieces : Component.root ∉ (Text.splitOnChar '/' cs).filterMap component? :=
    root_notMem_steps cs
  unfold components
  cases isAbsolute cs with
  | true => simp
  | false =>
      simp only [Bool.false_eq_true, if_false, List.mem_append, hpieces, or_false, iff_false]
      split <;> simp

/-- The text of a path without dots is absolute exactly if the path is. -/
theorem isAbsolute_chars {p : PlainPath} (hp : p.Proper) : isAbsolute p.chars = p.absolute := by
  have hroot : Component.root ∈ p.components ↔ p.absolute = true := by
    unfold PlainPath.components
    cases p.absolute <;> simp
  rw [Bool.eq_iff_iff, ← root_mem_components, components_chars hp, hroot]

/-! ## normal forms -/

/-- Steps with proper names keep a plain path proper. -/
theorem proper_foldl_enter {p : PlainPath} (hp : p.Proper) {cs : List Component}
    (hcs : ∀ name, Component.name name ∈ cs → component? name = some (.name name) ∧ '/' ∉ name) :
    (cs.foldl .enter p).Proper := by
  induction cs generalizing p with
  | nil => exact hp
  | cons c cs ih =>
      apply ih
      · intro name hname
        cases c with
        | root => contradiction
        | here => exact hp name hname
        | up => exact hp name (List.dropLast_subset _ hname)
        | name last =>
            rcases List.mem_append.mp hname with hname | hname
            · exact hp name hname
            · obtain rfl := List.mem_singleton.mp hname
              exact hcs name List.mem_cons_self
      · exact fun name hname => hcs name (List.mem_cons_of_mem _ hname)

/-- Only the root makes a path absolute. -/
theorem absolute_foldl_enter (p : PlainPath) (cs : List Component) :
    (cs.foldl .enter p).absolute = true ↔ p.absolute = true ∨ .root ∈ cs := by
  induction cs generalizing p with
  | nil => simp
  | cons c cs ih =>
      rw [List.foldl_cons, ih]
      cases c <;> simp [enter]

/-- A normal form has only names that stand for themselves. -/
theorem proper_normalize (cs : List Char) : (normalize cs).Proper :=
  proper_foldl_enter (fun _ h => absurd h List.not_mem_nil) fun _ => component?_of_name_mem

/-- Normalising a path keeps whether it is absolute. -/
theorem absolute_normalize (cs : List Char) : (normalize cs).absolute = isAbsolute cs := by
  rw [Bool.eq_iff_iff, normalize, absolute_foldl_enter, root_mem_components]
  simp

/-! ## staying inside a root directory -/

/-- What is accepted is the plain form of the candidate, and starts with the root. -/
theorem within?_eq_some {root path : List Char} {p : PlainPath} (h : within? root path = some p) :
    p = normalize (if isAbsolute path then path else join (normalize root).chars path) ∧
      (normalize root).components <+: p.components := by
  unfold within? at h
  simp only [Option.ite_none_right_eq_some, Option.some.injEq] at h
  obtain ⟨hinside, rfl⟩ := h
  exact ⟨rfl, List.isPrefixOf_iff_prefix.mp hinside⟩

/-- An accepted path is absolute exactly if the root is, unless the path was absolute and the root
leads nowhere. -/
theorem absolute_of_within? {root path : List Char} {p : PlainPath}
    (h : within? root path = some p) :
    p.absolute = isAbsolute root ↔
      ¬((normalize root).components = [] ∧ isAbsolute path = true) := by
  obtain ⟨htarget, hleading⟩ := within?_eq_some h
  by_cases hempty : (normalize root).components = []
  · -- nothing is put in front of a path below such a root
    have hplain := components_eq_nil_iff.mp hempty
    have hpath : p.absolute = isAbsolute path := by
      rw [htarget, absolute_normalize, hplain]
      simp [chars, joinNames, join]
    have hrelative : isAbsolute root = false := by
      rw [← absolute_normalize, hplain]
    rw [hpath, hrelative]
    simp [hempty]
  · rw [absolute_eq_of_components hempty hleading, absolute_normalize]
    simp [hempty]

/-- An absolute path is accepted against a relative root just if the root leads nowhere. -/
theorem isSome_within?_iff {root path : List Char} (hpath : isAbsolute path = true)
    (hrelative : isAbsolute root = false) :
    (within? root path).isSome ↔ (normalize root).components = [] := by
  constructor
  · intro hsome
    obtain ⟨p, h⟩ := Option.isSome_iff_exists.mp hsome
    have hp : p = normalize path := by simpa [hpath] using (within?_eq_some h).1
    by_contra hempty
    have habsolute := (absolute_of_within? h).mpr fun hboth => hempty hboth.1
    rw [hp, absolute_normalize, hpath, hrelative] at habsolute
    contradiction
  · intro hempty
    simp [within?, hempty]

/-- **Containment in a root directory.** A path that is accepted has no dots, and the components of
the normal form of the root are its first ones. It is absolute exactly if the root is, unless the
path is absolute and the normal form of the root is the empty path; and an absolute path is accepted
against a root that is not absolute in just this case. -/
theorem within?_contained (root path : List Char) :
    (∀ p, within? root path = some p →
      (∀ c ∈ components p.chars, c ≠ .here ∧ c ≠ .up) ∧
      components (normalize root).chars <+: components p.chars ∧
      (isAbsolute p.chars = isAbsolute root ↔
        ¬(components (normalize root).chars = [] ∧ isAbsolute path = true))) ∧
    (isAbsolute path = true → isAbsolute root = false →
      ((within? root path).isSome ↔ components (normalize root).chars = [])) := by
  rw [components_chars (proper_normalize root)]
  refine ⟨?_, isSome_within?_iff⟩
  intro p h
  obtain ⟨htarget, hleading⟩ := within?_eq_some h
  have hp : p.Proper := htarget ▸ proper_normalize _
  rw [components_chars hp, isAbsolute_chars hp]
  exact ⟨fun c => dotless_components p, hleading, absolute_of_within? h⟩

/-- A root that is a single dot accepts a path from the root of all files. -/
theorem within?_here_absolute :
    within? ['.'] ['/', 'e', 't', 'c'] = some ⟨true, [['e', 't', 'c']]⟩ ∧
      isAbsolute (PlainPath.chars ⟨true, [['e', 't', 'c']]⟩) = true ∧ isAbsolute ['.'] = false := by
  decide

/-- Under `/w` what is accepted is absolute, and under `a/..` even `/etc` is accepted. -/
theorem within?_contained_samples :
    within? ['/', 'w'] ['.', '.', '/', 'w', '/', 'a'] = some ⟨true, [['w'], ['a']]⟩ ∧
      isAbsolute (PlainPath.chars ⟨true, [['w'], ['a']]⟩) = isAbsolute ['/', 'w'] ∧
      ((within? ['a', '/', '.', '.'] ['/', 'e', 't', 'c']).isSome ↔
        components (normalize ['a', '/', '.', '.']).chars = []) := by
  have h : within? ['/', 'w'] ['.', '.', '/', 'w', '/', 'a'] = some ⟨true, [['w'], ['a']]⟩ := by
    decide
  exact ⟨h, ((within?_contained _ _).1 _ h).2.2.mpr (by decide),
    (within?_contained _ _).2 (by decide) (by decide)⟩

end FilePath

end Runbook

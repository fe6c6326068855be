import Runbook.Proofs.File.Path
import Mathlib.Data.List.DropRight
import Mathlib.Data.List.Infix

/-!
# Runbook.Proofs.File.Ancestors

The directories above a path, and the way from one of them to the path.

A parent is found in the text of a path, from its end. It lacks the last component of the path
(`FilePath.parent?_of_isAbsolute`), be it a name or a double dot, so the components of everything
above a path are the first ones of the path (`FilePath.mem_ancestorsSteps`).

The components that are missing are a way from the directory to the path. With its double dots a way
can leave the directory that it starts from; it comes to going up some directories, and then down
along some names (`Way.along`, `Way.target_along`). It ends inside the directory that it started
from if and only if the names that it enters are first the ones that it left
(`Way.prefix_target_iff`), and so the path stays inside a directory above it if and only if its way
returns there (`FilePath.within?_append_iff`).
-/

namespace Runbook

namespace FilePath

/-! ## components from the end -/

/-- A slash parts the steps of a path. -/
theorem steps_append (front back : List Char) :
    steps (front ++ '/' :: back) = steps front ++ steps back := by
  rw [steps, Text.splitOnChar_append_mark, List.filterMap_append]
  rfl

/-- A slash at the end of a path is no component. -/
theorem steps_slash (cs : List Char) : steps (cs ++ ['/']) = steps cs := by
  have hend : steps [] = [] := rfl
  rw [steps_append, hend, List.append_nil]

/-- A piece without a slash is one step, or none. -/
theorem steps_of_notMem {piece : List Char} (h : '/' ∉ piece) :
    steps piece = (component? piece).toList := by
  rw [steps, Text.splitOnChar_of_notMem h]
  cases hc : component? piece <;> simp [hc]

/-- Slashes and single dots at the end of a path are no components. -/
theorem steps_dropSlashes (reversed : List Char) :
    steps (parent?.dropSlashes reversed).reverse = steps reversed.reverse := by
  have hdot (cs : List Char) : steps (cs ++ ['/', '.']) = steps cs := by
    have hend : steps ['.'] = [] := rfl
    rw [steps_append, hend, List.append_nil]
  fun_induction parent?.dropSlashes reversed with
  | case1 rest hempty => rw [List.isEmpty_iff.mp hempty]
  | case2 rest hrest ih => rw [ih, List.reverse_cons, steps_slash]
  | case3 rest hempty =>
      rw [List.isEmpty_iff.mp hempty]
      rfl
  | case4 rest hrest ih =>
      rw [ih, List.reverse_cons, List.reverse_cons, List.append_assoc]
      exact (hdot _).symm
  | case5 rest => rfl

/-- The slash at the front of a path stays. -/
theorem getLast?_dropSlashes {reversed : List Char} (h : reversed.getLast? = some '/') :
    (parent?.dropSlashes reversed).getLast? = some '/' := by
  fun_induction parent?.dropSlashes reversed with
  | case1 => rfl
  | case2 rest hrest ih =>
      refine ih ?_
      cases rest with
      | nil => contradiction
      | cons c rest => rwa [List.getLast?_cons_cons] at h
  | case3 => rfl
  | case4 rest hrest ih =>
      refine ih ?_
      cases rest with
      | nil => contradiction
      | cons c rest => rwa [List.getLast?_cons_cons, List.getLast?_cons_cons] at h
  | case5 rest => exact h

/-- What is left ends with a component, unless it is a slash alone. -/
theorem dropSlashes_cases (reversed : List Char) :
    parent?.dropSlashes reversed = ['/'] ∨
      ∀ name rest, parent?.dropSlashes reversed = name ++ '/' :: rest →
        ∃ last, component? name.reverse = some last := by
  fun_induction parent?.dropSlashes reversed with
  | case1 => exact .inl rfl
  | case2 rest hrest ih => exact ih
  | case3 => exact .inl rfl
  | case4 rest hrest ih => exact ih
  | case5 reversed hslash hdot =>
      refine .inr fun name rest h => ?_
      have hcomponent : ¬(name.reverse = [] ∨ name.reverse = ['.']) := by
        rintro (hempty | hsingle)
        · exact hslash rest (by rw [h, List.reverse_eq_nil_iff.mp hempty, List.nil_append])
        · exact hdot rest (by rw [h, List.reverse_eq_iff.mp hsingle]; rfl)
      rw [component?, if_neg hcomponent]
      split <;> exact ⟨_, rfl⟩

/-- The last component of an absolute path has a slash in front of it, and the slash at the front of
the path is not behind that one. -/
theorem exists_last_component {cs : List Char} (habsolute : isAbsolute cs = true)
    (hsteps : steps cs ≠ []) :
    ∃ name rest last, parent?.dropSlashes cs.reverse = name ++ '/' :: rest ∧ '/' ∉ name ∧
      component? name.reverse = some last ∧ ('/' :: rest).getLast? = some '/' := by
  have hfront : (parent?.dropSlashes cs.reverse).getLast? = some '/' := by
    apply getLast?_dropSlashes
    simpa [isAbsolute, List.getLast?_reverse] using habsolute
  obtain ⟨name, rest, hname, hslash⟩ :=
    List.eq_append_cons_of_mem (List.mem_of_getLast? hfront)
  rw [hname, List.getLast?_append_of_ne_nil _ (List.cons_ne_nil '/' rest)] at hfront
  rcases dropSlashes_cases cs.reverse with halone | hends
  · have hnone := steps_dropSlashes cs.reverse
    rw [halone, List.reverse_reverse] at hnone
    exact absurd hnone.symm hsteps
  · obtain ⟨last, hlast⟩ := hends name rest hname
    exact ⟨name, rest, last, hname, hslash, hlast, hfront⟩

/-- The parent is what stands in front of the last slash. -/
theorem parent?_eq_some {cs parent name rest : List Char} (h : parent? cs = some parent)
    (hname : parent?.dropSlashes cs.reverse = name ++ '/' :: rest) (hslash : '/' ∉ name) :
    parent = (parent?.dropSlashes ('/' :: rest)).reverse := by
  have hdrop : (name ++ '/' :: rest).dropWhile (· ≠ '/') = '/' :: rest := by
    rw [List.dropWhile_append_of_pos]
    · simp
    · intro c hc
      simpa using ne_of_mem_of_not_mem hc hslash
  unfold parent? at h
  split at h
  · contradiction
  · contradiction
  · rw [← Option.some.inj h, parent?.dropComponent, hname, hdrop]

/-- The parent of an absolute path is absolute and lacks the last component of it. -/
theorem parent?_of_isAbsolute {cs parent : List Char} (habsolute : isAbsolute cs = true)
    (h : parent? cs = some parent) :
    isAbsolute parent = true ∧ ∃ last, steps cs = steps parent ++ [last] := by
  have hsteps : steps cs ≠ [] := by
    intro hnone
    rw [parent?, components_of_isAbsolute habsolute, hnone] at h
    contradiction
  obtain ⟨name, rest, last, hname, hslash, hlast, hfront⟩ := exists_last_component habsolute hsteps
  have hparent := parent?_eq_some h hname hslash
  constructor
  · simpa [isAbsolute, hparent, List.head?_reverse] using getLast?_dropSlashes hfront
  · have hrest : steps parent = steps rest.reverse := by
      rw [hparent, steps_dropSlashes, List.reverse_cons, steps_slash]
    have hlastSteps : steps name.reverse = [last] := by
      rw [steps_of_notMem (mt List.mem_reverse.mp hslash), hlast]
      rfl
    refine ⟨last, ?_⟩
    calc steps cs = steps (name ++ '/' :: rest).reverse := by
          rw [← hname, steps_dropSlashes, List.reverse_reverse]
      _ = steps (rest.reverse ++ '/' :: name.reverse) := by simp
      _ = steps parent ++ [last] := by rw [steps_append, hlastSteps, hrest]

/-- The components of a directory above an absolute path are the first ones of the path. -/
theorem mem_ancestorsSteps {n : Nat} {cs directory : List Char} (habsolute : isAbsolute cs = true)
    (h : directory ∈ ancestorsSteps n cs) :
    isAbsolute directory = true ∧ steps directory <+: steps cs := by
  induction n generalizing cs with
  | zero =>
      obtain rfl := List.mem_singleton.mp h
      exact ⟨habsolute, List.prefix_rfl⟩
  | succ n ih =>
      rw [ancestorsSteps] at h
      split at h
      · next parent hparent =>
          rcases List.mem_cons.mp h with rfl | h
          · exact ⟨habsolute, List.prefix_rfl⟩
          · obtain ⟨hfront, last, hlast⟩ := parent?_of_isAbsolute habsolute hparent
            obtain ⟨hdirectory, hleading⟩ := ih hfront h
            exact ⟨hdirectory, hleading.trans ⟨[last], hlast.symm⟩⟩
      · obtain rfl := List.mem_singleton.mp h
        exact ⟨habsolute, List.prefix_rfl⟩

theorem self_mem_ancestors (cs : List Char) : cs ∈ ancestors cs := by
  unfold ancestors
  cases cs.length with
  | zero => exact List.mem_singleton_self cs
  | succ n =>
      rw [ancestorsSteps]
      split
      · exact List.mem_cons_self
      · exact List.mem_singleton_self cs

end FilePath

/-! ## ways -/

/-- What a way comes to: some directories up, and then down along some names. -/
structure Way where
  /-- The number of directories that are left. -/
  up : Nat
  /-- The names that are entered then. -/
  down : List (List Char)

namespace Way

/-- The way with a further component. A double dot leaves the last name that was entered, if any. -/
def follow (way : Way) : Component → Way
  | .root | .here => way
  | .up =>
    if way.down = [] then { way with up := way.up + 1 } else { way with down := way.down.dropLast }
  | .name cs => { way with down := way.down ++ [cs] }

/-- The way along some components. -/
def along (cs : List Component) : Way := cs.foldl .follow ⟨0, []⟩

/-- Where the way leads to from a directory. -/
def target (way : Way) (p : PlainPath) : PlainPath :=
  { p with names := p.names.rdrop way.up ++ way.down }

/-- The names that the way leaves are the first ones that it enters then. -/
def ReturnsTo (way : Way) (p : PlainPath) : Prop := p.names.rtake way.up <+: way.down

instance (way : Way) (p : PlainPath) : Decidable (way.ReturnsTo p) :=
  inferInstanceAs (Decidable (_ <+: _))

/-- One more name is left out at the end. -/
theorem rdrop_succ (names : List (List Char)) (n : Nat) :
    names.rdrop (n + 1) = (names.rdrop n).dropLast := by
  rw [List.rdrop, List.rdrop, List.dropLast_eq_take, List.take_take, List.length_take]
  congr 1
  omega

/-- A step of a way is a step of its target. -/
theorem target_follow (way : Way) (p : PlainPath) {c : Component} (hc : c ≠ .root) :
    (way.follow c).target p = (way.target p).enter c := by
  cases c with
  | root => contradiction
  | here => rfl
  | up =>
      rw [follow]
      split
      · next hdown => simp [target, PlainPath.enter, hdown, rdrop_succ]
      · next hdown => simp [target, PlainPath.enter, List.dropLast_append_of_ne_nil hdown]
  | name cs => simp [follow, target, PlainPath.enter]

/-- So are several. -/
theorem target_foldl (way : Way) (p : PlainPath) {cs : List Component} (hcs : .root ∉ cs) :
    (cs.foldl .follow way).target p = cs.foldl .enter (way.target p) := by
  induction cs generalizing way with
  | nil => rfl
  | cons c cs ih =>
      rw [List.mem_cons, not_or] at hcs
      rw [List.foldl_cons, List.foldl_cons, ih _ hcs.2, target_follow way p (Ne.symm hcs.1)]

/-- The components lead from a directory to where their way leads to. -/
theorem target_along (p : PlainPath) {cs : List Component} (hcs : .root ∉ cs) :
    (along cs).target p = cs.foldl .enter p := by
  rw [along, target_foldl _ p hcs]
  simp [target]

/-- A way ends inside the directory that it starts from if and only if it returns to it. -/
theorem prefix_target_iff (way : Way) (p : PlainPath) :
    p.components <+: (way.target p).components ↔ way.ReturnsTo p := by
  have hname : Function.Injective Component.name := fun _ _ => Component.name.inj
  have hnames : p.names = p.names.rdrop way.up ++ p.names.rtake way.up := by
    simp [List.rdrop, List.rtake]
  calc p.components <+: (way.target p).components
      ↔ p.names <+: p.names.rdrop way.up ++ way.down := by
        rw [PlainPath.components, PlainPath.components, target, List.prefix_append_right_inj,
          List.prefix_map_iff_of_injective hname]
    _ ↔ p.names.rtake way.up <+: way.down := by
        conv => lhs; lhs; rw [hnames]
        rw [List.prefix_append_right_inj]

/-- Without steps up a way does not leave its start. -/
theorem up_foldl (way : Way) {cs : List Component} (hcs : .up ∉ cs) :
    (cs.foldl .follow way).up = way.up := by
  induction cs generalizing way with
  | nil => rfl
  | cons c cs ih =>
      rw [List.mem_cons, not_or] at hcs
      rw [List.foldl_cons, ih _ hcs.2]
      cases c with
      | up => exact absurd rfl hcs.1
      | root | here | name => rfl

/-- A way without double dots leaves no directory. -/
theorem returnsTo_of_up_notMem (p : PlainPath) {cs : List Component} (hcs : .up ∉ cs) :
    (along cs).ReturnsTo p := by
  rw [ReturnsTo, along, up_foldl _ hcs, List.rtake_zero]
  exact List.nil_prefix

end Way

/-! ## staying inside a directory above -/

namespace FilePath

/-- An absolute path is within the root just when its plain form starts with that of the root. -/
theorem within?_eq_some_normalize_iff (root : List Char) {path : List Char}
    (hpath : isAbsolute path = true) :
    within? root path = some (normalize path) ↔
      (normalize root).components <+: (normalize path).components := by
  simp [within?, hpath]

/-- The way from the root to a path decides whether the path is inside. -/
theorem within?_append_iff {root path : List Char} {way : List Component}
    (hpath : isAbsolute path = true) (h : components path = components root ++ way)
    (hway : .root ∉ way) :
    within? root path = some (normalize path) ↔ (Way.along way).ReturnsTo (normalize root) := by
  have htarget : normalize path = (Way.along way).target (normalize root) := by
    rw [Way.target_along _ hway, normalize, normalize, h, List.foldl_append]
  rw [within?_eq_some_normalize_iff root hpath, htarget, Way.prefix_target_iff]

end FilePath

end Runbook

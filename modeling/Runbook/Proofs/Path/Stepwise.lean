import Runbook.Proofs.Path
import Runbook.Proofs.Text.Numeral

/-!
# Runbook.Proofs.Path.Stepwise

Where the text of a path leads. One step of a lookup is a relation between values, with a rule for
each way to get at a part of a value (`Accessor.Leads`), and a path takes one step after the other
(`Path.Leads`). Looking up the text of a path finds a value exactly if the steps that it spells lead
there, and fails exactly if one of them leads nowhere (`PathText.resolve_chars`), whatever points,
brackets, blanks and quotes of the other kind stand in its keys.
-/

namespace Runbook

/-! ## steps of a lookup -/

/-- One step of a lookup. Lists are counted by numbers of one word. -/
inductive Accessor.Leads : Accessor → Value → Value → Prop
  /-- A key leads to the member of a mapping. -/
  | member {key : String} {entries : Entries} {v : Value}
      (h : Entries.get? key entries = some v) : Leads (.key key) (.object entries) v
  /-- A key that spells a number leads to the item of a list. -/
  | numbered {key : String} {n : Nat} {items : List Value} {v : Value}
      (hn : Text.natural? Text.wordLimit key.toList = some n) (h : items[n]? = some v) :
      Leads (.key key) (.array items) v
  /-- An index leads to the item of a list. -/
  | item {n : Nat} {items : List Value} {v : Value} (hn : n < Text.wordLimit)
      (h : items[n]? = some v) : Leads (.index n) (.array items) v

/-- The steps lead from a value to a part of it, one after the other. -/
inductive Path.Leads : Path → Value → Value → Prop
  | nil (v : Value) : Leads [] v v
  | cons {a : Accessor} {p : Path} {u v w : Value} (hfirst : a.Leads u v) (hrest : Leads p v w) :
      Leads (a :: p) u w

/-- The accessor is a key, or an index that fits a word. -/
def Accessor.Fits : Accessor → Prop
  | .key _ => True
  | .index n => n < Text.wordLimit

/-- One step leads to a value just when the access fits and finds it. -/
theorem Accessor.leads_iff {a : Accessor} {v w : Value} :
    a.Leads v w ↔ a.Fits ∧ a.lookup v = some w := by
  constructor
  · intro h
    cases h with
    | member h => exact ⟨trivial, h⟩
    | numbered hn h => exact ⟨trivial, by simp only [lookup, hn, Option.bind_some, h]⟩
    | item hn h => exact ⟨hn, h⟩
  · rintro ⟨hfits, h⟩
    cases a with
    | key key =>
        cases v with
        | object entries => exact .member h
        | array items =>
            obtain ⟨n, hn, hitem⟩ := Option.bind_eq_some_iff.mp h
            exact .numbered hn hitem
        | null | bool b | number n | string s => simp [lookup] at h
    | index n =>
        cases v with
        | array items => exact .item hfits h
        | null | bool b | number n | string s | object entries => simp [lookup] at h

namespace Path

/-- A path leads to a value just when every step fits and the walk finds it. -/
theorem leads_iff {p : Path} {v w : Value} :
    p.Leads v w ↔ (∀ a ∈ p, a.Fits) ∧ walk v p = some w := by
  induction p generalizing v with
  | nil =>
      constructor
      · rintro ⟨⟩
        exact ⟨List.forall_mem_nil _, rfl⟩
      · rintro ⟨-, h⟩
        obtain rfl : v = w := Option.some.inj h
        exact .nil v
  | cons a p ih =>
      rw [List.forall_mem_cons, walk]
      constructor
      · rintro (_ | ⟨hfirst, hrest⟩)
        obtain ⟨hfits, hlookup⟩ := Accessor.leads_iff.mp hfirst
        obtain ⟨hothers, hwalk⟩ := ih.mp hrest
        exact ⟨⟨hfits, hothers⟩, by rw [hlookup, Option.bind_some, hwalk]⟩
      · rintro ⟨⟨hfits, hothers⟩, h⟩
        obtain ⟨u, hlookup, hwalk⟩ := Option.bind_eq_some_iff.mp h
        exact .cons (Accessor.leads_iff.mpr ⟨hfits, hlookup⟩) (ih.mpr ⟨hothers, hwalk⟩)

/-- Steps lead to one value only. -/
theorem Leads.unique {p : Path} {u v w : Value} (hv : p.Leads u v) (hw : p.Leads u w) : v = w := by
  have hwalk := (leads_iff.mp hv).2
  rw [(leads_iff.mp hw).2] at hwalk
  exact (Option.some.inj hwalk).symm

/-- The steps can be taken up to one that leads nowhere. -/
def Misses (p : Path) (v : Value) : Prop :=
  ∃ before a after u, p = before ++ a :: after ∧ Leads before v u ∧ ∀ w, ¬a.Leads u w

/-- A way along two paths passes the value between them. -/
theorem Leads.of_append {before after : Path} {v w : Value} (h : (before ++ after).Leads v w) :
    ∃ u, before.Leads v u ∧ after.Leads u w := by
  induction before generalizing v with
  | nil => exact ⟨v, .nil v, h⟩
  | cons a before ih =>
      cases h with
      | cons hfirst hrest =>
          obtain ⟨u, hbefore, hafter⟩ := ih hrest
          exact ⟨u, .cons hfirst hbefore, hafter⟩

/-- Either the steps lead somewhere or one of them is missing. -/
theorem misses_iff {p : Path} {v : Value} : p.Misses v ↔ ∀ w, ¬p.Leads v w := by
  constructor
  · rintro ⟨before, a, after, u, rfl, hbefore, hmiss⟩ w hleads
    obtain ⟨u', hbefore', hafter⟩ := hleads.of_append
    obtain rfl := hbefore.unique hbefore'
    cases hafter with
    | cons hfirst hrest => exact hmiss _ hfirst
  · intro h
    induction p generalizing v with
    | nil => exact absurd (.nil v) (h v)
    | cons a p ih =>
        by_cases hfirst : ∃ u, a.Leads v u
        · obtain ⟨u, hfirst⟩ := hfirst
          obtain ⟨before, a', after, u', rfl, hbefore, hmiss⟩ :=
            ih fun w hrest => h w (.cons hfirst hrest)
          exact ⟨a :: before, a', after, u', rfl, .cons hfirst hbefore, hmiss⟩
        · exact ⟨[], a, p, v, rfl, .nil v, fun w hw => hfirst ⟨w, hw⟩⟩

end Path

/-! ## the steps of a text -/

/-- The number that an index spells. -/
def IndexDigits.value (digits : IndexDigits) : Nat := Text.valueOfDigits digits.chars

/-- Digits are read as their value, below the limit of a word. -/
theorem IndexDigits.natural?_eq_some_iff {digits : IndexDigits} {limit n : Nat} :
    Text.natural? limit digits.chars = some n ↔ n = digits.value ∧ n < limit := by
  have hdigits : DigitText digits.chars := ⟨digits.ne_nil, digits.isDigit⟩
  rw [Text.natural?_eq_some_iff, Text.spellsNatural_iff_of_digitText hdigits, value]

/-- The step that a move spells. -/
def Move.step : Move → Accessor
  | .member name => .key (String.ofList name.chars)
  | .item digits => .index digits.value
  | .entry key => .key (String.ofList key.chars)

/-- A move is read as its own step, and only if the step fits. -/
theorem Move.accessor?_eq_some_iff {move : Move} {a : Accessor} :
    move.accessor? = some a ↔ a = move.step ∧ a.Fits := by
  cases move with
  | member name | entry key =>
      constructor
      · rintro ⟨⟩
        exact ⟨rfl, trivial⟩
      · rintro ⟨rfl, -⟩
        rfl
  | item digits =>
      simp only [accessor?, Option.map_eq_some_iff, IndexDigits.natural?_eq_some_iff]
      constructor
      · rintro ⟨n, ⟨rfl, hfits⟩, rfl⟩
        exact ⟨rfl, hfits⟩
      · rintro ⟨rfl, hfits⟩
        exact ⟨_, ⟨rfl, hfits⟩, rfl⟩

/-- Moves are read as their steps, and only if all of them fit. -/
theorem mapM_accessor?_eq_some_iff {moves : List Move} {p : Path} :
    moves.mapM Move.accessor? = some p ↔ p = moves.map Move.step ∧ ∀ a ∈ p, a.Fits := by
  induction moves generalizing p with
  | nil =>
      constructor
      · rintro ⟨⟩
        exact ⟨rfl, List.forall_mem_nil _⟩
      · rintro ⟨rfl, -⟩
        rfl
  | cons move moves ih =>
      simp only [List.mapM_cons, Option.bind_eq_bind, Option.bind_eq_some_iff, Option.pure_def,
        Option.some.injEq, Move.accessor?_eq_some_iff, ih]
      constructor
      · rintro ⟨a, ⟨rfl, hfirst⟩, p, ⟨rfl, hrest⟩, rfl⟩
        exact ⟨rfl, List.forall_mem_cons.mpr ⟨hfirst, hrest⟩⟩
      · rintro ⟨rfl, hfits⟩
        obtain ⟨hfirst, hrest⟩ := List.forall_mem_cons.mp hfits
        exact ⟨_, ⟨rfl, hfirst⟩, _, ⟨rfl, hrest⟩, rfl⟩

namespace PathText

/-- The steps that a text spells: its first name is a key, and every move is a step. -/
def steps (path : PathText) : Path :=
  .key (String.ofList path.head.chars) :: path.moves.map Move.step

/-- A written path is read as its steps, and only if all of them fit. -/
theorem accessors?_eq_some_iff {path : PathText} {p : Path} :
    path.accessors? = some p ↔ p = path.steps ∧ ∀ a ∈ p, a.Fits := by
  simp only [accessors?, Option.map_eq_some_iff, mapM_accessor?_eq_some_iff]
  constructor
  · rintro ⟨p, ⟨rfl, hrest⟩, rfl⟩
    exact ⟨rfl, List.forall_mem_cons.mpr ⟨trivial, hrest⟩⟩
  · rintro ⟨rfl, hfits⟩
    exact ⟨_, ⟨rfl, (List.forall_mem_cons.mp hfits).2⟩, rfl⟩

/-- The text of a path leads where its steps do. -/
theorem resolve_eq_some_iff (path : PathText) (root : Entries) (v : Value) :
    Path.resolve root path.chars = some v ↔ path.steps.Leads (.object root) v := by
  rw [Path.leads_iff, Path.resolve, path.ofText?_chars, Option.bind_eq_some_iff]
  simp only [accessors?_eq_some_iff]
  constructor
  · rintro ⟨p, ⟨rfl, hfits⟩, hwalk⟩
    exact ⟨hfits, hwalk⟩
  · rintro ⟨hfits, hwalk⟩
    exact ⟨_, ⟨rfl, hfits⟩, hwalk⟩

/-- **Paths address exactly.** From every mapping the text of a path leads to the value that its
steps lead to, and it leads nowhere exactly if a step is missing. -/
theorem resolve_chars (path : PathText) (root : Entries) :
    (∀ v, Path.resolve root path.chars = some v ↔ path.steps.Leads (.object root) v) ∧
      (Path.resolve root path.chars = none ↔ path.steps.Misses (.object root)) := by
  refine ⟨path.resolve_eq_some_iff root, ?_⟩
  rw [Path.misses_iff, Option.eq_none_iff_forall_ne_some]
  exact forall_congr' fun v => not_congr (path.resolve_eq_some_iff root v)

end PathText

end Runbook

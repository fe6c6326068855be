import Runbook.Proofs.Value.Grammar

/-!
# Runbook.Proofs.Value.Layout

The indented text of a value with its strings written in any way. With the usual way it is what
`Value.prettyChars` writes (`layout_quoted`), and as long as every string is written as the text of
a string, it is a data text (`spells_layout`).
-/

namespace Runbook.Value

/-- Induction on values, where all items of a list and all values of a mapping have the
property. -/
@[elab_as_elim]
theorem induction {motive : Value → Prop} (null : motive .null) (bool : ∀ b, motive (.bool b))
    (number : ∀ n, motive (.number n)) (string : ∀ s, motive (.string s))
    (array : ∀ xs, (∀ x ∈ xs, motive x) → motive (.array xs))
    (object : ∀ es, (∀ e ∈ es, motive e.2) → motive (.object es)) (v : Value) : motive v :=
  @Value.rec motive (fun xs => ∀ x ∈ xs, motive x) (fun es => ∀ e ∈ es, motive e.2)
    (fun e => motive e.2) null bool number string array object
    (fun x hx => by simp at hx)
    (fun x xs hx hxs y hy => (List.mem_cons.1 hy).elim (fun h => h ▸ hx) (hxs y))
    (fun e he => by simp at he)
    (fun e es he hes f hf => (List.mem_cons.1 hf).elim (fun h => h ▸ he) (hes f))
    (fun _ _ hv => hv) v

/-! ## strings -/

mutual

/-- The strings of a value, keys included. -/
def strings : Value → List String
  | .string s => [s]
  | .array xs => itemStrings xs
  | .object es => entryStrings es
  | .null | .bool _ | .number _ => []
termination_by structural v => v

/-- The strings of some items. -/
def itemStrings : List Value → List String
  | [] => []
  | x :: xs => strings x ++ itemStrings xs
termination_by structural xs => xs

/-- The strings of some entries. -/
def entryStrings : List (String × Value) → List String
  | [] => []
  | (k, v) :: es => k :: strings v ++ entryStrings es
termination_by structural es => es

end

/-! ## layout -/

mutual

/-- The indented text of a value with strings as they are written by `literal`. -/
def layout (literal : String → List Char) (level : Nat) : Value → List Char
  | .array [] => "[]".toList
  | .array (x :: xs) =>
    '[' :: newline (level + 1) ++ layout literal (level + 1) x ++
      itemsLayout literal (level + 1) xs ++ newline level ++ [']']
  | .object [] => "\x7b\x7d".toList
  | .object ((k, v) :: es) =>
    '{' :: newline (level + 1) ++ literal k ++ ": ".toList ++ layout literal (level + 1) v ++
      entriesLayout literal (level + 1) es ++ newline level ++ ['}']
  | .null => "null".toList
  | .bool b => boolText b
  | .number n => n.chars
  | .string s => literal s
termination_by structural v => v

/-- The items after the first one. -/
def itemsLayout (literal : String → List Char) (level : Nat) : List Value → List Char
  | [] => []
  | x :: xs => ',' :: newline level ++ layout literal level x ++ itemsLayout literal level xs
termination_by structural xs => xs

/-- The entries after the first one. -/
def entriesLayout (literal : String → List Char) (level : Nat) :
    List (String × Value) → List Char
  | [] => []
  | (k, v) :: es =>
    ',' :: newline level ++ literal k ++ ": ".toList ++ layout literal level v ++
      entriesLayout literal level es
termination_by structural es => es

end

/-- With its strings quoted the layout is the written value. -/
theorem layout_quoted (v : Value) (level : Nat) : layout quoted level v = v.prettyChars level := by
  induction v using Value.induction generalizing level with
  | null | bool b | number n | string s => rfl
  | array xs ih =>
      have hitems : ∀ ys, (∀ x ∈ ys, x ∈ xs) →
          itemsLayout quoted (level + 1) ys = prettyItems (level + 1) ys := by
        intro ys hys
        induction ys with
        | nil => rfl
        | cons y ys ihys =>
            rw [itemsLayout, prettyItems, ih y (hys y List.mem_cons_self),
              ihys fun x hx => hys x (List.mem_cons_of_mem _ hx)]
      cases xs with
      | nil => rfl
      | cons x xs =>
          rw [layout, prettyChars, ih x List.mem_cons_self,
            hitems xs fun y hy => List.mem_cons_of_mem _ hy]
  | object es ih =>
      have hentries : ∀ fs, (∀ e ∈ fs, e ∈ es) →
          entriesLayout quoted (level + 1) fs = prettyEntries (level + 1) fs := by
        intro fs hfs
        induction fs with
        | nil => rfl
        | cons f fs ihfs =>
            rw [entriesLayout, prettyEntries, ih f (hfs f List.mem_cons_self),
              ihfs fun e he => hfs e (List.mem_cons_of_mem _ he)]
      cases es with
      | nil => rfl
      | cons e es =>
          rw [layout, prettyChars, ih e List.mem_cons_self,
            hentries es fun f hf => List.mem_cons_of_mem _ hf]

/-! ## grammar -/

theorem gaps_nil : Gaps [] := fun c hc => by simp at hc

theorem gaps_space : Gaps [' '] := fun c hc => by
  obtain rfl := List.mem_singleton.mp hc
  rfl

theorem gaps_newline (level : Nat) : Gaps (newline level) := by
  intro c hc
  rcases List.mem_cons.mp hc with rfl | hc
  · rfl
  · rw [List.eq_of_mem_replicate hc]
    rfl

variable {literal : String → List Char}

/-- The items of a list spell items if each of them spells a value. -/
theorem spells_itemsLayout {xs : List Value} {level : Nat}
    (h : ∀ x ∈ xs, Spells .value (layout literal level x)) {before cs after : List Char}
    (hbefore : Gaps before) (hcs : Spells .value cs) (hafter : Gaps after) :
    Spells .items (before ++ cs ++ itemsLayout literal level xs ++ after) := by
  induction xs generalizing before cs with
  | nil => simpa [itemsLayout] using Spells.lastItem hbefore hcs hafter
  | cons x xs ih =>
      have hrest := ih (fun y hy => h y (List.mem_cons_of_mem _ hy)) (gaps_newline level)
        (h x List.mem_cons_self)
      simpa [itemsLayout] using Spells.nextItem hbefore hcs gaps_nil hrest

/-- The entries of a mapping spell members if each key spells a string and each value a value. -/
theorem spells_entriesLayout {es : List (String × Value)} {level : Nat}
    (hkeys : ∀ e ∈ es, StringText (literal e.1))
    (h : ∀ e ∈ es, Spells .value (layout literal level e.2)) {before key cs after : List Char}
    (hbefore : Gaps before) (hkey : StringText key) (hcs : Spells .value cs) (hafter : Gaps after) :
    Spells (.members (key :: es.map fun e => literal e.1))
      (before ++ key ++ ": ".toList ++ cs ++ entriesLayout literal level es ++ after) := by
  induction es generalizing before key cs with
  | nil =>
      simpa [entriesLayout] using
        Spells.lastMember hbefore hkey gaps_nil gaps_space hcs hafter
  | cons e es ih =>
      have hrest := ih (fun f hf => hkeys f (List.mem_cons_of_mem _ hf))
        (fun f hf => h f (List.mem_cons_of_mem _ hf)) (gaps_newline level)
        (hkeys e List.mem_cons_self) (h e List.mem_cons_self)
      simpa [entriesLayout] using
        Spells.nextMember hbefore hkey gaps_nil gaps_space hcs gaps_nil hrest

/-- The strings of an item are among those of the items. -/
theorem strings_subset_of_item {x : Value} {xs : List Value} (hx : x ∈ xs) :
    x.strings ⊆ itemStrings xs := by
  induction xs with
  | nil => simp at hx
  | cons y xs ih =>
      rw [itemStrings]
      rcases List.mem_cons.mp hx with rfl | hx
      · exact List.subset_append_left _ _
      · exact List.Subset.trans (ih hx) (List.subset_append_right _ _)

/-- So are the key and the strings of an entry. -/
theorem strings_subset_of_entry {e : String × Value} {es : List (String × Value)} (he : e ∈ es) :
    e.1 :: e.2.strings ⊆ entryStrings es := by
  induction es with
  | nil => simp at he
  | cons f es ih =>
      rw [entryStrings]
      rcases List.mem_cons.mp he with rfl | he
      · exact List.subset_append_left _ _
      · exact List.Subset.trans (ih he) (List.subset_append_right _ _)

/-- A mapping is laid out with its members between braces. -/
theorem exists_members {e : String × Value} {es : List (String × Value)} {level : Nat}
    (hkeys : ∀ f ∈ e :: es, StringText (literal f.1))
    (h : ∀ f ∈ e :: es, Spells .value (layout literal (level + 1) f.2)) :
    ∃ inside, layout literal level (.object (e :: es)) = '{' :: inside ++ ['}'] ∧
      Spells (.members ((e :: es).map fun f => literal f.1)) inside := by
  have hinside := spells_entriesLayout (fun f hf => hkeys f (List.mem_cons_of_mem _ hf))
    (fun f hf => h f (List.mem_cons_of_mem _ hf)) (gaps_newline (level + 1))
    (hkeys e List.mem_cons_self) (h e List.mem_cons_self) (gaps_newline level)
  exact ⟨_, by simp [layout], hinside⟩

/-- A value is laid out as a data text if its strings are written as texts of strings. -/
theorem spells_layout (v : Value) (level : Nat) (h : ∀ s ∈ v.strings, StringText (literal s)) :
    Spells .value (layout literal level v) := by
  induction v using Value.induction generalizing level with
  | null => exact .null
  | bool b => exact .bool b
  | number n => exact .number n.numberText_chars
  | string s => exact .string (h s (List.mem_singleton.mpr rfl))
  | array xs ih =>
      have hitems : ∀ x ∈ xs, Spells .value (layout literal (level + 1) x) := fun x hx =>
        ih x hx (level + 1) fun s hs => h s (strings_subset_of_item hx hs)
      cases xs with
      | nil => exact .emptyList gaps_nil
      | cons x xs =>
          have hinside := spells_itemsLayout (fun y hy => hitems y (List.mem_cons_of_mem _ hy))
            (gaps_newline (level + 1)) (hitems x List.mem_cons_self) (gaps_newline level)
          simpa [layout] using Spells.list hinside
  | object es ih =>
      cases es with
      | nil => exact .emptyMapping gaps_nil
      | cons e es =>
          obtain ⟨inside, hlayout, hinside⟩ := exists_members
            (fun f hf => h f.1 (strings_subset_of_entry hf List.mem_cons_self))
            (fun f hf => ih f hf (level + 1) fun s hs =>
              h s (strings_subset_of_entry hf (List.mem_cons_of_mem _ hs)))
          exact hlayout ▸ .mapping hinside

end Runbook.Value

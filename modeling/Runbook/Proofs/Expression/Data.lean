import Runbook.Proofs.Expression.Splicing
import Runbook.Proofs.Value.Layout
import Runbook.Proofs.Value.RoundTrip

/-!
# Runbook.Proofs.Expression.Data

Values that are spliced into the text of an expression, alone. A scan sees nothing in the text of a
value: strings without double quotes end where they are closed, and everything else in a list or a
mapping stands in brackets (`Value.Exact.nested_chars`). So no operator, no membership test, and no
bracket around the whole is found in it, and it is read as the literal that it is
(`evaluateText_data`).
-/

namespace Runbook

open Expression

namespace Value

/-! ## what scans see of a value -/

/-- The items behind the first one show nothing at the top level if none of them does. -/
theorem nested_itemsTail {xs : List Value} (h : ∀ x ∈ xs, Scan.Nested [] x.chars) :
    Scan.Nested [] (itemsTail xs) := by
  induction xs with
  | nil => exact .nil
  | cons x xs ih =>
      rw [List.forall_mem_cons] at h
      exact .plain (by decide) List.not_mem_nil (h.1.append (ih h.2))

/-- Neither do the entries of a mapping, if its keys have no quotes in them. -/
theorem nested_entriesTail {es : List (String × Value)} (hkeys : ∀ e ∈ es, '"' ∉ e.1.toList)
    (h : ∀ e ∈ es, Scan.Nested [] e.2.chars) : Scan.Nested [] (entriesTail es) := by
  induction es with
  | nil => exact .nil
  | cons e es ih =>
      rw [List.forall_mem_cons] at hkeys h
      have hvalue : Scan.Nested [] (':' :: (e.2.chars ++ entriesTail es)) :=
        .plain (by decide) List.not_mem_nil (h.1.append (ih hkeys.2 h.2))
      have hentry := (nested_quoted hkeys.1 []).append hvalue
      simpa [entriesTail] using Scan.Nested.plain (c := ',') (by decide) List.not_mem_nil hentry

/-- Without double quotes in its strings, the text of a value shows no operator. -/
theorem Exact.nested_chars {depth : Nat} {v : Value} (h : v.Exact depth)
    (hquotes : ∀ s ∈ v.strings, '"' ∉ s.toList) : Scan.Nested ('.' :: operatorChars) v.chars := by
  induction h with
  | null => exact nested_of_isNameChar (by decide)
  | bool b => cases b <;> exact nested_of_isNameChar (by decide)
  | integer hlower hupper => exact nested_of_isNameChar fun c hc => isNameChar_of_mem_integerText hc
  | string s => exact nested_quoted (hquotes s (List.mem_singleton.mpr rfl)) _
  | @array depth xs h ih =>
      -- within the brackets nothing counts, so the items need not hide the operators
      have hitems : ∀ x ∈ xs, Scan.Nested [] x.chars := fun x hx =>
        (ih x hx fun s hs => hquotes s (strings_subset_of_item hx hs)).mono (List.nil_subset _)
      cases xs with
      | nil => exact nested_squareBrackets .nil _
      | cons x xs =>
          rw [List.forall_mem_cons] at hitems
          have hinside := hitems.1.append (nested_itemsTail hitems.2)
          simpa [chars] using nested_squareBrackets hinside ('.' :: operatorChars)
  | @object depth es hkeys h ih =>
      have hnames : ∀ e ∈ es, '"' ∉ e.1.toList := fun e he =>
        hquotes e.1 (strings_subset_of_entry he List.mem_cons_self)
      have hvalues : ∀ e ∈ es, Scan.Nested [] e.2.chars := fun e he =>
        (ih e he fun s hs =>
          hquotes s (strings_subset_of_entry he (List.mem_cons_of_mem _ hs))).mono
            (List.nil_subset _)
      cases es with
      | nil => exact Scan.Nested.bracket rfl .nil .nil
      | cons e es =>
          rw [List.forall_mem_cons] at hnames hvalues
          have hvalue : Scan.Nested [] (':' :: (e.2.chars ++ entriesTail es)) :=
            .plain (by decide) List.not_mem_nil
              (hvalues.1.append (nested_entriesTail hnames.2 hvalues.2))
          have hinside := (nested_quoted hnames.1 []).append hvalue
          have hbraces : Scan.Nested ('.' :: operatorChars)
              ('{' :: (quoted e.1 ++ ':' :: (e.2.chars ++ entriesTail es) ++ ['}'])) :=
            .bracket rfl hinside .nil
          simpa [chars] using hbraces

/-- The text of a value is taken for data. -/
theorem Exact.looksLikeData_chars {depth : Nat} {v : Value} (h : v.Exact depth) :
    looksLikeData v.chars = true := by
  cases h with
  | null => rfl
  | bool b => cases b <;> rfl
  | @integer _ i =>
      obtain ⟨c, cs, htext, hc⟩ := Reading.integerText_cons i
      rw [chars, Number.chars, htext]
      rcases hc with hc | hc <;> simp [looksLikeData, hc]
  | string s => rfl
  | @array _ xs => cases xs <;> rfl
  | @object _ es => cases es <;> rfl

/-- It has no blank at its ends. -/
theorem Exact.solid_chars {depth : Nat} {v : Value} (h : v.Exact depth) : Text.Solid v.chars := by
  have hword : ∀ cs : List Char, cs ≠ [] → (∀ c ∈ cs, isNameChar c = true) → Text.Solid cs :=
    fun cs hne hcs => Text.solid_of_forall hne fun c hc => (isNameChar_iff.1 (hcs c hc)).1
  cases h with
  | null => exact hword _ (by decide) (by decide)
  | bool b => cases b <;> exact hword _ (by decide) (by decide)
  | @integer _ i =>
      obtain ⟨c, cs, htext, -⟩ := Reading.integerText_cons i
      exact hword _ (by simp [chars, Number.chars, htext]) fun c hc =>
        isNameChar_of_mem_integerText hc
  | string s => exact quoted_solid s
  | @array _ xs =>
      cases xs with
      | nil => exact Text.solid_enclosed (by decide) (by decide) []
      | cons x xs => exact Text.solid_enclosed (by decide) (by decide) (x.chars ++ itemsTail xs)
  | @object _ es =>
      cases es with
      | nil => exact Text.solid_enclosed (by decide) (by decide) []
      | cons e es =>
          have hsolid := Text.solid_enclosed (o := '{') (c := '}') (by decide) (by decide)
            (quoted e.1 ++ ':' :: (e.2.chars ++ entriesTail es))
          simpa [chars] using hsolid

end Value

/-! ## reading and evaluating -/

/-- **A value that is spliced into an expression alone evaluates to itself.** The text of a value of
integers, strings without double quotes, and lists and mappings of them that nest at most 127 deep,
is read as a literal and as nothing else, so its value is the same over every mapping. -/
theorem evaluateText_data {v : Value} (hexact : v.Exact 127)
    (hquotes : ∀ s ∈ v.strings, '"' ∉ s.toList) :
    ofText v.chars = .literal v ∧ ∀ root, evaluateText root v.chars = .ok v := by
  have hread : ofText v.chars = .literal v := by
    have hnested := hexact.nested_chars hquotes
    have hmark := passesMark_of_nested hnested List.mem_cons_self
    have hsolid := hexact.solid_chars
    have hvalue := hexact.read_chars
    have hlooks := hexact.looksLikeData_chars
    obtain ⟨c, cs, hchars, hc⟩ := hexact.chars_cons
    have hbracket : c ≠ '(' := hc.ne (by decide)
    have hopen : Scan.unwrapped? v.chars = none := by simp [Scan.unwrapped?, hchars, hbracket]
    rw [ofText, readSteps_of_nested hsolid (hnested.mono (List.subset_cons_self ..)) hmark hopen]
    rw [hchars] at hlooks hvalue ⊢
    exact Atom.atom_of_read (hc.ne (by decide)) hlooks hvalue
  refine ⟨hread, fun root => ?_⟩
  rw [evaluateText, hread]
  rfl

/-- A mapping with operators, brackets, single quotes and the name of a membership test in its
strings. -/
def crowded : Value :=
  .object [("a || b", .array [.string "(1 < 2).includes(", .number (.int (-7)), .null]),
    ("it's", .object [("\x7b\x7b x \x7d\x7d", .bool true)])]

/-- Operators in the strings and brackets of a value do no harm, not even where they name a key. -/
theorem evaluateText_data_crowded :
    crowded.Exact 127 ∧ (∀ s ∈ crowded.strings, '"' ∉ s.toList) ∧
      evaluateText [("a || b", .string "other")] crowded.chars = .ok crowded := by
  have hexact : crowded.Exact 127 := by
    refine .object (by decide) (List.forall_mem_cons.mpr ⟨.array ?_, ?_⟩)
    · simpa using ⟨Value.Exact.string _, Value.Exact.integer (by decide) (by decide),
        Value.Exact.null⟩
    · simpa using Value.Exact.object (by decide) (by simpa using Value.Exact.bool true)
  have hquotes : ∀ s ∈ crowded.strings, '"' ∉ s.toList := by decide
  exact ⟨hexact, hquotes, (evaluateText_data hexact hquotes).2 _⟩

end Runbook

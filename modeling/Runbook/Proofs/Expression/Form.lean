import Runbook.Proofs.Expression.Reading
import Runbook.Proofs.Expression.Splitting

/-!
# Runbook.Proofs.Expression.Form

The form of a text (`Expression.formOf`): how the text is read at its loosest operator, and which
parts of it are read in turn. The reader reads a text as its form says (`readSteps_succ`), so what
holds of all readings is shown form by form. Every part is cut out of the text and leaves something
of it out (`properPart_of_mem_parts`), whatever the text looks like.
-/

namespace Runbook.Expression

/-- How a text is read at its loosest operator. The parts that are read in turn are of the type `α`:
texts at first, and then what these texts are read as, or what they evaluate to. -/
inductive Form (α : Type) where
  /-- Brackets around the whole. -/
  | enclosed (inner : α)
  | anyOf (parts : List α)
  | allOf (parts : List α)
  | negated (times : Nat) (operand : α)
  | compared (op : Comparison) (left right : α)
  | membership (haystack needle : α)
  | literal (value : Value)
  | reference (name : String)
  | malformed (error : ExpressionError)

namespace Form

variable {α β γ : Type}

/-- The parts that are read in turn. -/
def parts : Form α → List α
  | enclosed inner => [inner]
  | anyOf parts | allOf parts => parts
  | negated _ operand => [operand]
  | compared _ left right => [left, right]
  | membership haystack needle => [haystack, needle]
  | literal _ | reference _ | malformed _ => []

def map (f : α → β) : Form α → Form β
  | enclosed inner => .enclosed (f inner)
  | anyOf parts => .anyOf (parts.map f)
  | allOf parts => .allOf (parts.map f)
  | negated times operand => .negated times (f operand)
  | compared op left right => .compared op (f left) (f right)
  | membership haystack needle => .membership (f haystack) (f needle)
  | literal value => .literal value
  | reference name => .reference name
  | malformed error => .malformed error

/-- The expression of a text from those of its parts. -/
def expression : Form Expression → Expression
  | enclosed inner => inner
  | anyOf parts => .anyOf parts
  | allOf parts => .allOf parts
  | negated times operand => .negated times operand
  | compared op left right => .compared op left right
  | membership haystack needle => .membership haystack needle
  | literal value => .literal value
  | reference name => .reference name
  | malformed error => .malformed error

/-- The parts of a form, mapped twice. -/
theorem map_map (g : β → γ) (f : α → β) (form : Form α) :
    (form.map f).map g = form.map (g ∘ f) := by
  cases form <;> simp [map]

/-- The parts of a mapped form are the parts, mapped. -/
theorem parts_map (f : α → β) (form : Form α) : (form.map f).parts = form.parts.map f := by
  cases form <;> rfl

/-- Mapping makes no form a reference that was none before. -/
theorem map_eq_reference_iff {f : α → β} {form : Form α} {name : String} :
    form.map f = .reference name ↔ form = .reference name := by
  cases form <;> simp [map]

/-- Only what becomes of the parts matters. -/
theorem map_congr {f g : α → β} {form : Form α} (h : ∀ part ∈ form.parts, f part = g part) :
    form.map f = form.map g := by
  cases form <;> simp_all [map, parts]

end Form

/-- The form of a literal or a reference. -/
def atomForm (cs : List Char) : Form (List Char) :=
  match literal? cs with
  | some value => .literal value
  | none =>
    if cs.any Text.isBlank then .malformed (.unsupported (String.ofList cs))
    else .reference (String.ofList cs)

/-- The form of a text. -/
def formOf (text : List Char) : Form (List Char) :=
  let cs := Text.trim text
  if cs.isEmpty then .malformed .empty
  else
    match Scan.unwrapped? cs with
    | some inner => .enclosed inner
    | none =>
      match Scan.split? "||".toList cs with
      | some parts => .anyOf parts
      | none =>
        match Scan.split? "&&".toList cs with
        | some parts => .allOf parts
        | none =>
          match negations cs.length cs with
          | (times + 1, inner) =>
            if (Text.trim inner).isEmpty then .malformed (.missingOperand "!")
            else .negated (times + 1) inner
          | (0, _) =>
            match comparison? cs comparisons with
            | some (op, left, right) =>
              if (Text.trim left).isEmpty || (Text.trim right).isEmpty then
                .malformed (.missingOperand op.sign)
              else .compared op (Text.trim left) (Text.trim right)
            | none =>
              match Scan.cutTop? includesMark Scan.top cs with
              | some (before, after) =>
                match membershipParts cs before after with
                | .error e => .malformed e
                | .ok (haystack, needle) => .membership haystack needle
              | none => atomForm cs

/-! ## reading by forms -/

/-- The form of a leaf has no parts, so it is the leaf whatever is done to parts. -/
theorem expression_atomForm (f : List Char → Expression) (cs : List Char) :
    ((atomForm cs).map f).expression = atom cs := by
  unfold atomForm atom
  cases literal? cs with
  | some v => rfl
  | none =>
      by_cases hblank : cs.any Text.isBlank = true <;> simp [hblank, Form.map, Form.expression]

/-- Parts are read like the pieces that they are without their blanks. -/
theorem map_readSteps_trim (steps : Nat) (pieces : List (List Char)) :
    (pieces.map Text.trim).map (readSteps steps) = pieces.map (readSteps steps) := by
  rw [List.map_map]
  exact List.map_congr_left fun piece _ => readSteps_trim steps piece

/-- The reader reads a text as its form says. -/
theorem readSteps_succ (steps : Nat) (text : List Char) :
    readSteps (steps + 1) text = ((formOf text).map (readSteps steps)).expression := by
  rw [readSteps, formOf]
  generalize Text.trim text = cs
  by_cases hempty : cs.isEmpty = true
  · simp only [hempty, if_true]
    rfl
  -- from here on in the order in which the reader tries its readings
  rw [if_neg hempty, if_neg hempty]
  cases Scan.unwrapped? cs with
  | some inner => rfl
  | none =>
  simp only
  split
  · next hany =>
      rw [Scan.split?_of_cons hany, ← map_readSteps_trim]
      rfl
  next hany =>
  rw [Scan.split?_of_few hany]
  simp only
  split
  · next hall =>
      rw [Scan.split?_of_cons hall, ← map_readSteps_trim]
      rfl
  next hall =>
  rw [Scan.split?_of_few hall]
  obtain ⟨_ | times, inner⟩ := negations cs.length cs
  · simp only
    cases comparison? cs comparisons with
    | some sides =>
        obtain ⟨op, left, right⟩ := sides
        simp only
        split
        · rfl
        · simp only [Form.map, Form.expression, readSteps_trim]
    | none =>
        simp only
        cases Scan.cutTop? includesMark Scan.top cs with
        | none => exact (expression_atomForm _ cs).symm
        | some sides =>
            obtain ⟨before, after⟩ := sides
            simp only
            cases membershipParts cs before after <;> rfl
  · simp only
    split <;> rfl

/-! ## parts -/

section Parts

open Text (ProperPart)

variable {cs : List Char}

/-- What stands inside brackets is shorter. -/
theorem properPart_of_unwrapped? {inner : List Char} (h : Scan.unwrapped? cs = some inner) :
    ProperPart inner cs := by
  cases cs with
  | nil => contradiction
  | cons c cs =>
      simp only [Scan.unwrapped?, Option.ite_none_right_eq_some, Option.some.injEq] at h
      rw [← h.2]
      exact Text.properPart_dropLast c cs

/-- What stands behind negations is a part that is cut off at its front. -/
theorem suffix_of_negations {steps times : Nat} {inner : List Char}
    (h : negations steps cs = (times, inner)) :
    inner <:+ cs ∧ inner.length + times ≤ cs.length := by
  fun_induction negations steps cs generalizing times with
  | case1 | case2 | case4 =>
      obtain ⟨rfl, rfl⟩ := Prod.mk.inj h
      exact ⟨List.suffix_refl _, Nat.le_refl _⟩
  | case3 steps rest hsign times' inner' hrest ih =>
      obtain ⟨rfl, rfl⟩ := Prod.mk.inj h
      obtain ⟨hsuffix, hlength⟩ := ih hrest
      have htrim := Text.length_trimStart_le rest
      refine ⟨hsuffix.trans ((List.dropWhile_suffix _).trans (List.suffix_cons '!' rest)), ?_⟩
      simp only [List.length_cons]
      omega

/-- So are the two sides of a comparison. -/
theorem properPart_of_comparison? {ops : List Comparison} {op : Comparison}
    {left right : List Char} (h : comparison? cs ops = some (op, left, right)) :
    ProperPart left cs ∧ ProperPart right cs := by
  induction ops with
  | nil => contradiction
  | cons first ops ih =>
      rw [comparison?] at h
      split at h
      · next hcut =>
          cases h
          exact Scan.properPart_of_cutTop? (by cases op <;> decide) hcut
      · exact ih h

/-- The parts of a membership test stand before and behind its mark. -/
theorem infix_of_membershipParts {before after haystack needle : List Char}
    (h : membershipParts cs before after = .ok (haystack, needle)) :
    haystack <:+: before ∧ needle <:+: after := by
  unfold membershipParts at h
  split at h
  · contradiction
  · next argument hargument =>
      split at h
      · contradiction
      · split at h
        · contradiction
        · cases h
          have hafter : argument <:+: after :=
            ⟨[], [')'], (Text.dropTail?_eq_some_iff.mp hargument).symm⟩
          exact ⟨Text.infix_trim before, (Text.infix_trim argument).trans hafter⟩

/-- A leaf has no parts. -/
theorem parts_atomForm (cs : List Char) : (atomForm cs).parts = [] := by
  unfold atomForm
  split
  · rfl
  · split <;> rfl

/-- A leaf that is a reference has the whole text as its name. -/
theorem name_of_atomForm {name : String} (h : atomForm cs = .reference name) :
    name = String.ofList cs := by
  unfold atomForm at h
  split at h
  · contradiction
  · split at h
    · contradiction
    · exact (Form.reference.inj h).symm

/-- The name in a text that is a reference is the whole text without the blanks around it. -/
theorem name_of_formOf {text : List Char} {name : String} (h : formOf text = .reference name) :
    name = String.ofList (Text.trim text) := by
  rw [formOf] at h
  generalize Text.trim text = cs at h ⊢
  -- only the last reading makes references
  repeat' split at h
  all_goals first
    | contradiction
    | exact name_of_atomForm h

/-- Every part of a text stands in the text without the blanks around it, and is shorter. -/
theorem properPart_of_mem_parts {text : List Char} :
    ∀ part ∈ (formOf text).parts, ProperPart part (Text.trim text) := by
  -- one split for each reading, in the order in which they are tried
  rw [formOf]
  generalize Text.trim text = cs
  intro part hpart
  split at hpart
  · simp [Form.parts] at hpart
  split at hpart
  · next hinner =>
      obtain rfl := List.mem_singleton.mp hpart
      exact properPart_of_unwrapped? hinner
  split at hpart
  · next hparts => exact Scan.properPart_of_mem_split? (by decide) hparts part hpart
  split at hpart
  · next hparts => exact Scan.properPart_of_mem_split? (by decide) hparts part hpart
  split at hpart
  · next hnegations =>
      split at hpart
      · simp [Form.parts] at hpart
      · obtain rfl := List.mem_singleton.mp hpart
        obtain ⟨hsuffix, hlength⟩ := suffix_of_negations hnegations
        exact ⟨hsuffix.isInfix, by omega⟩
  split at hpart
  · next hcomparison =>
      obtain ⟨hleft, hright⟩ := properPart_of_comparison? hcomparison
      split at hpart
      · simp [Form.parts] at hpart
      · rcases List.mem_pair.mp hpart with rfl | rfl
        · exact hleft.of_isInfix (Text.infix_trim _)
        · exact hright.of_isInfix (Text.infix_trim _)
  split at hpart
  · next hcut =>
      obtain ⟨hbefore, hafter⟩ := Scan.properPart_of_cutTop? (by decide) hcut
      split at hpart
      · simp [Form.parts] at hpart
      · next hmembership =>
          obtain ⟨hhaystack, hneedle⟩ := infix_of_membershipParts hmembership
          rcases List.mem_pair.mp hpart with rfl | rfl
          · exact hbefore.of_isInfix hhaystack
          · exact hafter.of_isInfix hneedle
  · simp [parts_atomForm] at hpart

end Parts

end Runbook.Expression

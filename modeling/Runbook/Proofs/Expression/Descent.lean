import Runbook.Proofs.Expression.Form
import Runbook.Proofs.Expression.Formula
import Mathlib.Data.List.Chain

/-!
# Runbook.Proofs.Expression.Descent

Evaluating a text goes down to shorter texts. The value of a text is told by the values of the parts
that its form names (`Expression.evaluateText_eq`), and these are shorter than the text without the
blanks around it. So evaluations are nested no deeper than the text is long
(`Expression.length_le_of_isChain`), the bound on the number of steps that the reader takes along is
never met (`Expression.readSteps_eq`), and the loops that cut a text and take negations off it make
it shorter at every turn (`Scan.splitTop_turn`, `Expression.negations_turn`).
-/

namespace Runbook

namespace Expression

/-! ## values by forms -/

/-- The value of a text over a mapping from those of its parts. -/
def Form.value (root : Entries) :
    Form (Except ExpressionError Value) → Except ExpressionError Value
  | enclosed inner => inner
  | anyOf parts => do return .bool (← Formula.anyTrue (parts.map asOperand))
  | allOf parts => do return .bool (← Formula.allTrue (parts.map asOperand))
  | negated times operand => do
    let v ← asOperand operand
    return .bool (if times % 2 = 1 then !v.isTruthy else v.isTruthy)
  | compared op left right => do
    let l ← asOperand left
    let r ← asOperand right
    return .bool (← op.test l r)
  | membership haystack needle => do
    let h ← asOperand haystack
    let n ← asOperand needle
    return .bool (h.holds n)
  | literal v => .ok v
  | reference name => (dereference root name).elim (.error (.unknownReference name)) .ok
  | malformed e => .error e

/-- An expression evaluates to the value of its form, whose parts are evaluated. -/
theorem evaluate_expression (root : Entries) (form : Form Expression) :
    form.expression.evaluate root = (form.map (evaluate root)).value root := by
  cases form with
  | enclosed | literal | malformed => rfl
  | anyOf parts =>
      simp only [Form.expression, evaluate, Form.map, Form.value, List.map_map,
        Formula.evaluateAny_eq_anyTrue]
      rfl
  | allOf parts =>
      simp only [Form.expression, evaluate, Form.map, Form.value, List.map_map,
        Formula.evaluateAll_eq_allTrue]
      rfl
  | negated times operand => rfl
  | compared op left right =>
      simp only [Form.expression, evaluate, Form.map, Form.value]
      cases asOperand (left.evaluate root) with
      | error e => rfl
      | ok l => cases asOperand (right.evaluate root) <;> rfl
  | membership haystack needle =>
      simp only [Form.expression, evaluate, Form.map, Form.value]
      cases asOperand (haystack.evaluate root) <;> rfl
  | reference name =>
      simp only [Form.expression, evaluate, Form.map, Form.value]
      cases dereference root name <;> rfl

/-! ## enough steps -/

/-- A part is shorter than the text without the blanks around it. -/
theorem length_lt_of_mem_parts {text : List Char} :
    ∀ part ∈ (formOf text).parts, part.length < (Text.trim text).length :=
  fun part hpart => (properPart_of_mem_parts part hpart).shorter

/-- With more steps than the text has characters, their number does not matter. -/
theorem readSteps_eq {text : List Char} {steps : Nat} (h : (Text.trim text).length < steps) :
    readSteps steps text = ofText text := by
  suffices ∀ more, (Text.trim text).length < more → readSteps steps text = readSteps more text from
    this _ (Nat.lt_succ_of_le (Text.length_trim_le text))
  induction steps generalizing text with
  | zero => contradiction
  | succ steps ih =>
      intro more hmore
      obtain ⟨more, rfl⟩ : ∃ n, more = n + 1 := ⟨more - 1, by omega⟩
      rw [readSteps_succ, readSteps_succ]
      congr 1
      refine Form.map_congr fun part hpart => ?_
      have hshorter := length_lt_of_mem_parts part hpart
      have htrim := Text.length_trim_le part
      exact ih (by omega) more (by omega)

/-- A text is read as its form says, whose parts are read. -/
theorem ofText_eq (text : List Char) : ofText text = ((formOf text).map ofText).expression := by
  rw [ofText, readSteps_succ]
  congr 1
  refine Form.map_congr fun part hpart => readSteps_eq ?_
  have hshorter := length_lt_of_mem_parts part hpart
  have hpart := Text.length_trim_le part
  have htext := Text.length_trim_le text
  omega

/-- The value of a text is told by the values of its parts. -/
theorem evaluateText_eq (root : Entries) (text : List Char) :
    evaluateText root text = ((formOf text).map (evaluateText root)).value root := by
  rw [evaluateText, ofText_eq, evaluate_expression, Form.map_map]
  rfl

/-- Nothing else gives every text the value that its parts tell. -/
theorem eq_evaluateText {root : Entries} {f : List Char → Except ExpressionError Value}
    (h : ∀ text, f text = ((formOf text).map f).value root) (text : List Char) :
    f text = evaluateText root text := by
  induction hlength : text.length using Nat.strong_induction_on generalizing text with
  | h n ih =>
      rw [h, evaluateText_eq]
      congr 1
      refine Form.map_congr fun part hpart => ih _ ?_ part rfl
      have hshorter := length_lt_of_mem_parts part hpart
      have htrim := Text.length_trim_le text
      omega

/-! ## nested evaluations -/

/-- Evaluating the one text evaluates the other one as a part. -/
def Starts (text part : List Char) : Prop := part ∈ (formOf text).parts

instance (text part : List Char) : Decidable (Starts text part) :=
  inferInstanceAs (Decidable (_ ∈ _))

/-- Evaluations are nested no deeper than the text is long. -/
theorem length_le_of_isChain {text : List Char} {nested : List (List Char)}
    (h : (text :: nested).IsChain Starts) : nested.length ≤ (Text.trim text).length := by
  induction nested generalizing text with
  | nil => exact Nat.zero_le _
  | cons part nested ih =>
      obtain ⟨hpart, hnested⟩ := List.isChain_cons_cons.mp h
      have hshorter := length_lt_of_mem_parts part hpart
      have htrim := Text.length_trim_le part
      have hrest := ih hnested
      rw [List.length_cons]
      omega

end Expression

/-! ## turns of the loops -/

/-- One turn of the loop that cuts a text around an operator. -/
theorem Scan.splitTop_turn {operator : List Char} (hne : operator ≠ []) (cs : List Char) :
    Scan.splitTop operator cs =
      match Scan.cutTop? operator Scan.top cs with
      | none => [cs]
      | some (before, after) => before :: Scan.splitTop operator after := by
  cases hcut : Scan.cutTop? operator Scan.top cs with
  | none => exact Scan.splitTop_of_eq_none hcut
  | some sides => exact Scan.splitTop_eq_cons hne hcut

namespace Expression

/-- The text behind a negation at the front, up to its first character that is no blank. -/
def behindNegation? : List Char → Option (List Char)
  | '!' :: '=' :: _ => none
  | '!' :: rest => some (Text.trimStart rest)
  | _ => none

/-- What stands behind a negation is shorter. -/
theorem length_behindNegation? {cs rest : List Char} (h : behindNegation? cs = some rest) :
    rest.length < cs.length := by
  unfold behindNegation? at h
  split at h
  · contradiction
  · next inner _ =>
      obtain rfl := Option.some.inj h
      exact Nat.lt_succ_of_le (Text.length_trimStart_le inner)
  · contradiction

/-- Counting negations takes one off and goes on behind it. -/
theorem negations_succ (steps : Nat) (cs : List Char) :
    negations (steps + 1) cs =
      match behindNegation? cs with
      | none => (0, cs)
      | some rest => ((negations steps rest).1 + 1, (negations steps rest).2) := by
  fun_cases behindNegation? cs with
  | case1 => rfl
  | case2 | case3 => simp only [negations]

/-- As many turns as characters are enough. -/
theorem negations_eq {cs : List Char} {steps : Nat} (h : cs.length ≤ steps) :
    negations steps cs = negations cs.length cs := by
  suffices ∀ more, cs.length ≤ more → negations steps cs = negations more cs from
    this _ (Nat.le_refl _)
  induction steps generalizing cs with
  | zero =>
      intro more _
      obtain rfl := List.length_eq_zero_iff.mp (Nat.le_zero.mp h)
      cases more <;> rfl
  | succ steps ih =>
      intro more hmore
      cases more with
      | zero =>
          obtain rfl := List.length_eq_zero_iff.mp (Nat.le_zero.mp hmore)
          rfl
      | succ more =>
          rw [negations_succ, negations_succ]
          cases hrest : behindNegation? cs with
          | none => rfl
          | some rest =>
              have hshorter := length_behindNegation? hrest
              have heq : negations steps rest = negations more rest :=
                ih (by omega) more (by omega)
              simp only [heq]

/-- One turn of the loop that takes negations off the front of a text. -/
theorem negations_turn (cs : List Char) :
    negations cs.length cs =
      match behindNegation? cs with
      | none => (0, cs)
      | some rest =>
        ((negations rest.length rest).1 + 1, (negations rest.length rest).2) := by
  rw [← negations_eq (Nat.le_succ cs.length), negations_succ]
  cases hrest : behindNegation? cs with
  | none => rfl
  | some rest => simp only [negations_eq (Nat.le_of_lt (length_behindNegation? hrest))]

/-- **Evaluation ends.** The value of a text is the one that the values of its parts tell, and only
these values are told so. Every part is shorter than the text without the blanks around it, so
evaluations are nested no deeper than that text is long, and the reader does not run out of steps.
The loop that cuts a text around `||` or `&&` and the one that takes negations off its front go on
with a shorter text at every turn. -/
theorem evaluateText_descends (root : Entries) (text : List Char) :
    evaluateText root text = ((formOf text).map (evaluateText root)).value root ∧
    (∀ f, (∀ cs, f cs = ((formOf cs).map f).value root) → f text = evaluateText root text) ∧
    (∀ part ∈ (formOf text).parts, part.length < (Text.trim text).length) ∧
    (∀ nested, (text :: nested).IsChain Starts → nested.length ≤ (Text.trim text).length) ∧
    (∀ steps, (Text.trim text).length < steps → readSteps steps text = ofText text) ∧
    (∀ operator ∈ Scan.connectives,
      Scan.splitTop operator text =
        (match Scan.cutTop? operator Scan.top text with
        | none => [text]
        | some (before, after) => before :: Scan.splitTop operator after) ∧
      ∀ before after, Scan.cutTop? operator Scan.top text = some (before, after) →
        after.length < text.length) ∧
    negations text.length text =
      (match behindNegation? text with
      | none => (0, text)
      | some rest => ((negations rest.length rest).1 + 1, (negations rest.length rest).2)) ∧
    (∀ rest, behindNegation? text = some rest → rest.length < text.length) := by
  refine ⟨evaluateText_eq root text, fun f hf => eq_evaluateText hf text, length_lt_of_mem_parts,
    fun nested => length_le_of_isChain, fun steps => readSteps_eq, fun operator hoperator => ?_,
    negations_turn text, fun rest => length_behindNegation?⟩
  have hne := (Scan.isOperator_of_mem_connectives operator hoperator).ne_nil
  refine ⟨Scan.splitTop_turn hne text, fun before after hcut => ?_⟩
  exact (Scan.properPart_of_cutTop? hne hcut).2.shorter

/-- A negation in front, an operator behind it, and a bracket that is never closed. More steps than
needed change nothing. -/
theorem evaluateText_descends_unclosed :
    let text := "!a || ((b) ".toList
    let nested := ["!a".toList, "a".toList]
    let patient := fun cs => (readSteps (cs.length + 9) cs).evaluate []
    (∀ cs, patient cs = ((formOf cs).map patient).value []) ∧
      patient text = evaluateText [] text ∧
      (text :: nested).IsChain Starts ∧ nested.length ≤ (Text.trim text).length ∧
      "((b)".toList ∈ (formOf text).parts ∧ "((b)".toList.length < (Text.trim text).length ∧
      readSteps 11 text = ofText text ∧
      Scan.cutTop? "||".toList Scan.top text = some ("!a ".toList, " ((b) ".toList) ∧
      " ((b) ".toList.length < text.length ∧
      behindNegation? text = some "a || ((b) ".toList ∧
      "a || ((b) ".toList.length < text.length := by
  intro text nested patient
  have hpatient : patient = evaluateText [] := by
    funext cs
    have htrim := Text.length_trim_le cs
    exact congrArg (evaluate []) (readSteps_eq (by omega))
  have hparts : ∀ cs, patient cs = ((formOf cs).map patient).value [] := by
    rw [hpatient]
    exact evaluateText_eq []
  have hnested : (text :: nested).IsChain Starts := by decide
  have hpart : "((b)".toList ∈ (formOf text).parts := by decide
  have hcut : Scan.cutTop? "||".toList Scan.top text = some ("!a ".toList, " ((b) ".toList) := by
    decide
  have hbehind : behindNegation? text = some "a || ((b) ".toList := by decide
  obtain ⟨-, hunique, hshorter, hdepth, hsteps, hcuts, -, hnegations⟩ :=
    evaluateText_descends [] text
  obtain ⟨-, hafter⟩ := hcuts "||".toList (by decide)
  exact ⟨hparts, hunique patient hparts, hnested, hdepth nested hnested, hpart, hshorter _ hpart,
    hsteps 11 (by decide), hcut, hafter _ _ hcut, hbehind, hnegations _ hbehind⟩

end Expression

end Runbook

import Runbook.Proofs.Expression.Leaf

/-!
# Runbook.Proofs.Expression.Grammar

Reading the text of a tree gives the tree back. No scan for a looser operator finds one at the top
level of the text (`Formula.written`), and the scan for its own operator finds just the right ones.
Reading takes one step for every operator and every bracket around an operand, and a text is longer
than that (`Formula.reads`). So the text of a tree evaluates to the meaning of the tree.
-/

namespace Runbook

/-! ## the texts of trees -/

/-- Operands that bind more tightly, joined by an operator, are seen like a tree of its level. -/
theorem Written.joined {level : Nat} {operator first : List Char} {more : List (List Char)}
    (hlevel : level ≤ 2)
    (hoperator : ∀ c ∈ ' ' :: (operator ++ [' ']), Scan.delimits c = false ∧ c ∉ loudAt level)
    (h : ∀ t ∈ first :: more, Written (level + 1) t) :
    Written level (Scan.joined operator first more) := by
  have hnested : ∀ t ∈ first :: more, Scan.Nested (loudAt level) t :=
    fun t ht => ((h t ht).mono (Nat.le_succ level)).nested
  refine ⟨Scan.joined_solid fun t ht => (h t ht).solid,
    Scan.joined_nested (Scan.Nested.of_forall hoperator) hnested, ?_⟩
  have hfirst := h first (List.mem_cons_self ..)
  obtain ⟨d, rest, hd, -⟩ := hfirst.solid.starts
  intro c hc
  have hhead : first.head? = some c := by
    cases more <;> simpa [Scan.joined, hd] using hc
  exact ⟨(hfirst.starts c hhead).1, fun h => absurd h (by omega)⟩

/-- A negated operand is seen like a tree of the level of negations. -/
theorem Written.negated {cs : List Char} (h : Written 3 cs) : Written 2 ('!' :: cs) := by
  obtain ⟨rest, d, hd, hblank⟩ := h.solid.ends
  refine ⟨⟨⟨'!', cs, rfl, by decide⟩, ⟨'!' :: rest, d, by rw [hd]; rfl, hblank⟩⟩, ?_, ?_⟩
  · exact Scan.Nested.plain (by decide) (by decide) (h.mono (by decide)).nested
  · intro c hc
    cases hc
    exact ⟨by decide, fun h => absurd h (by decide)⟩

/-- The text of a tree does not start with an equals sign, nor with a negation if the tree binds
more tightly; so nothing in front of it reads on into it. -/
theorem Written.starts_append {level bound : Nat} {cs : List Char} (h : Written level cs)
    (hbound : bound ≤ level) (more : List Char) :
    ∀ c, (cs ++ more).head? = some c → c ≠ '=' ∧ (3 ≤ bound → c ≠ '!') := by
  obtain ⟨d, rest, hd, -⟩ := h.solid.starts
  intro c hc
  have hhead : cs.head? = some c := by simpa [hd] using hc
  exact ⟨(h.starts c hhead).1, fun hle => (h.starts c hhead).2 (by omega)⟩

/-- Two compared operands are seen like a tree of the level of comparisons. -/
theorem Written.compared {left right : List Char} (hleft : Written 4 left)
    (hright : Written 4 right) (op : Comparison) :
    Written 3 (left ++ ' ' :: (op.sign.toList ++ ' ' :: right)) := by
  have hsign : Scan.Nested (loudAt 3) (' ' :: (op.sign.toList ++ [' '])) := by
    apply Scan.Nested.of_forall
    cases op <;> decide
  have htext : left ++ ' ' :: (op.sign.toList ++ ' ' :: right) =
      left ++ (' ' :: (op.sign.toList ++ [' ']) ++ right) := by simp
  refine ⟨?_, ?_, hleft.starts_append (by decide) _⟩
  · rw [htext]
    exact hleft.solid.append hright.solid _
  · rw [htext]
    exact (hleft.mono (by decide)).nested.append
      (hsign.append (hright.mono (by decide)).nested)

/-- A membership test is seen like a tree of its level. -/
theorem Written.includes {level : Nat} {haystack needle : List Char}
    (hhaystack : Written 5 haystack) (hneedle : Written level needle) :
    Written 4 (haystack ++ (Expression.includesMark ++ (needle ++ [')']))) := by
  have hmark : Scan.Nested (loudAt 4) ('.' :: includesName) :=
    Scan.Nested.of_forall (by decide)
  have htext : haystack ++ (Expression.includesMark ++ (needle ++ [')'])) =
      haystack ++ ('.' :: includesName ++ '(' :: (needle ++ [')'])) := by
    simp [includesMark_eq]
  refine ⟨?_, ?_, hhaystack.starts_append (by decide) _⟩
  · rw [htext]
    exact hhaystack.solid.append (solid_brackets needle) _
  · rw [htext]
    exact (hhaystack.mono (by decide)).nested.append
      (hmark.append (hneedle.brackets 4).nested)

namespace Formula

/-- The texts of operands can be joined by an operator of a looser level. -/
theorem written_operands (bound : Nat) {fs : List Formula}
    (h : ∀ f ∈ fs, Written f.level f.chars) :
    ∀ t ∈ fs.map fun f => enclosed bound f.level f.chars, Written (bound + 1) t := by
  intro t ht
  obtain ⟨f, hf, rfl⟩ := List.mem_map.1 ht
  exact (h f hf).enclosed bound

/-- The text of a tree shows no looser operator than its own. -/
theorem written (f : Formula) : Written f.level f.chars := by
  induction f using Formula.induction with
  | anyOf first second more hfirst hsecond hmore =>
      have hall : ∀ f ∈ first :: second :: more, Written f.level f.chars := by
        simpa using ⟨hfirst, hsecond, hmore⟩
      rw [chars, operandChars_eq]
      show Written 0 _
      exact Written.joined (by decide) (by decide) (written_operands _ hall)
  | allOf first second more hfirst hsecond hmore =>
      have hall : ∀ f ∈ first :: second :: more, Written f.level f.chars := by
        simpa using ⟨hfirst, hsecond, hmore⟩
      rw [chars, operandChars_eq]
      show Written 1 _
      exact Written.joined (by decide) (by decide) (written_operands _ hall)
  | negated operand ih =>
      rw [chars]
      exact (ih.enclosed 2).negated
  | compared op left right hleft hright =>
      rw [chars]
      exact (hleft.enclosed 3).compared (hright.enclosed 3) op
  | includes haystack needle hhaystack hneedle =>
      rw [chars]
      exact (hhaystack.enclosed 4).includes hneedle
  | atom a => exact a.written 5

end Formula

/-! ## reading the text of an operator -/

namespace Expression

/-- Joined operands are not enclosed by brackets as a whole. -/
theorem unwrapped?_joined {level : Nat} {first : List Char} (h : Written level first)
    (operator second : List Char) (more : List (List Char)) :
    Scan.unwrapped? (Scan.joined operator first (second :: more)) = none := by
  rw [Scan.joined]
  exact h.unwrapped?_append (by simp)

/-- Operands joined by the sign for alternatives are read as an alternative. -/
theorem readSteps_joinedAny {first second : List Char} {more : List (List Char)}
    (h : ∀ t ∈ first :: second :: more, Written 1 t) (steps : Nat) :
    readSteps (steps + 1) (Scan.joined ['|', '|'] first (second :: more)) =
      .anyOf ((first :: second :: more).map (readSteps steps)) := by
  have hwhole : Written 0 (Scan.joined ['|', '|'] first (second :: more)) :=
    Written.joined (by decide) (by decide) h
  have hopen := unwrapped?_joined (h first (List.mem_cons_self ..)) ['|', '|'] second more
  have htexts : ∀ t ∈ first :: second :: more, Text.Solid t ∧ Scan.Nested ['|'] t :=
    fun t ht => ⟨(h t ht).solid, (h t ht).nested⟩
  exact readSteps_anyOf hwhole.solid steps hopen
    (Scan.splitTop_joined (by decide) (by decide) ['|'] htexts)

/-- Operands joined by the sign for conjunctions are read as a conjunction. -/
theorem readSteps_joinedAll {first second : List Char} {more : List (List Char)}
    (h : ∀ t ∈ first :: second :: more, Written 2 t) (steps : Nat) :
    readSteps (steps + 1) (Scan.joined ['&', '&'] first (second :: more)) =
      .allOf ((first :: second :: more).map (readSteps steps)) := by
  have hwhole : Written 1 (Scan.joined ['&', '&'] first (second :: more)) :=
    Written.joined (by decide) (by decide) h
  have hopen := unwrapped?_joined (h first (List.mem_cons_self ..)) ['&', '&'] second more
  have htexts : ∀ t ∈ first :: second :: more, Text.Solid t ∧ Scan.Nested ['&'] t :=
    fun t ht => ⟨(h t ht).solid, (h t ht).nested.mono (by decide)⟩
  exact readSteps_allOf hwhole.solid steps hopen (hwhole.cutTop?_or (by decide))
    (Scan.splitTop_joined (by decide) (by decide) ['&'] htexts)

/-- A negated operand is read as a negation. -/
theorem readSteps_not {cs : List Char} (h : Written 3 cs) (steps : Nat) :
    readSteps (steps + 1) ('!' :: cs) = .negated 1 (readSteps steps cs) := by
  have hwhole := h.negated
  have hopen : Scan.unwrapped? ('!' :: cs) = none := by simp [Scan.unwrapped?]
  obtain ⟨c, rest, hcs, hblank⟩ := h.solid.starts
  obtain ⟨hequal, hnot⟩ := h.starts c (by rw [hcs]; rfl)
  have hone : negations ('!' :: cs).length ('!' :: cs) = (1, cs) := by
    rw [hcs]
    exact negations_eq_one hblank (hnot (by decide)) hequal _
  exact readSteps_negated hwhole.solid steps hopen (hwhole.cutTop?_or (by decide))
    (hwhole.cutTop?_and (by decide)) h.solid hone

/-- Two compared operands are read as a comparison. -/
theorem readSteps_comparison {left right : List Char} (hleft : Written 4 left)
    (hright : Written 4 right) (op : Comparison) (steps : Nat) :
    readSteps (steps + 1) (left ++ ' ' :: (op.sign.toList ++ ' ' :: right)) =
      .compared op (readSteps steps left) (readSteps steps right) := by
  have hwhole := hleft.compared hright op
  have hopen : Scan.unwrapped? (left ++ ' ' :: (op.sign.toList ++ ' ' :: right)) = none :=
    hleft.unwrapped?_append (List.cons_ne_nil _ _)
  have hblank : ∀ {cs}, Scan.Nested (loudAt 4) cs → Scan.Nested (loudAt 4) (' ' :: cs) :=
    fun hcs => Scan.Nested.plain (by decide) (by decide) hcs
  have hcut : comparison? (left ++ ' ' :: (op.sign.toList ++ ' ' :: right)) comparisons =
      some (op, left ++ [' '], ' ' :: right) := by
    have hsides := comparison?_eq_some (hleft.nested.append (hblank Scan.Nested.nil))
      (hblank hright.nested) (by decide) op
    simpa using hsides
  have hleftTrim : Text.trim (left ++ [' ']) = left :=
    Text.trim_padded Text.blanks_nil Text.blanks_space hleft.solid
  have hrightTrim : Text.trim (' ' :: right) = right := by
    simpa using Text.trim_padded Text.blanks_space Text.blanks_nil hright.solid
  rw [readSteps_compared hwhole.solid steps hopen (hwhole.cutTop?_or (by decide))
    (hwhole.cutTop?_and (by decide)) (hwhole.negations_eq (by decide) _)
    (by rw [hleftTrim]; exact hleft.solid) (by rw [hrightTrim]; exact hright.solid) hcut]
  rw [← readSteps_trim steps (left ++ [' ']), ← readSteps_trim steps (' ' :: right), hleftTrim,
    hrightTrim]

/-- The text of a membership test is read as one. -/
theorem readSteps_includes {level : Nat} {haystack needle : List Char}
    (hhaystack : Written 5 haystack) (hmark : PassesMark haystack)
    (hneedle : Written level needle) (steps : Nat) :
    readSteps (steps + 1) (haystack ++ (includesMark ++ (needle ++ [')']))) =
      .membership (readSteps steps haystack) (readSteps steps needle) := by
  have hwhole := hhaystack.includes hneedle
  have hopen : Scan.unwrapped? (haystack ++ (includesMark ++ (needle ++ [')']))) = none :=
    hhaystack.unwrapped?_append (by simp [includesMark_eq])
  have hend : EndsName (includesMark ++ (needle ++ [')'])) := by
    intro c hc
    rw [includesMark_eq] at hc
    cases hc
    decide
  have hcut : Scan.cutTop? includesMark Scan.top
      (haystack ++ (includesMark ++ (needle ++ [')']))) = some (haystack, needle ++ [')']) := by
    have hpasses := hmark _ hend
    rw [includesMark_eq] at hpasses ⊢
    exact hpasses.cutTop?_eq_some hhaystack.nested.run_top (by decide)
  exact readSteps_membership hwhole.solid steps hopen (hwhole.cutTop?_or (by decide))
    (hwhole.cutTop?_and (by decide)) (hwhole.negations_eq (by decide) _)
    (hwhole.comparison?_eq (by decide)) hcut
    (membershipParts_eq_ok hhaystack.solid hneedle.solid hneedle.nested.balanced_eq _)

end Expression

/-! ## reading the text of a tree -/

namespace Formula

open Expression

/-- A number of steps that is greater than the length of the text is enough to read a tree. -/
def Reads (f : Formula) : Prop :=
  ∀ steps, f.chars.length < steps → readSteps steps f.chars = f.toExpression

/-- The brackets around an operand take one more step. -/
theorem Reads.enclosed {f : Formula} (h : f.Reads) (bound : Nat) {steps : Nat}
    (hsteps : (Formula.enclosed bound f.level f.chars).length < steps) :
    readSteps steps (Formula.enclosed bound f.level f.chars) = f.toExpression := by
  unfold Formula.enclosed at hsteps ⊢
  split
  · next hbrackets =>
      simp only [hbrackets, if_true, List.length_cons, List.length_append] at hsteps
      cases steps with
      | zero => omega
      | succ steps =>
          have hinner := Scan.unwrapped?_enclosed f.written.nested
          rw [readSteps_enclosed (solid_brackets f.chars) steps hinner]
          exact h steps (by omega)
  · next hbare =>
      rw [if_neg hbare] at hsteps
      exact h steps hsteps

/-- The texts of operands are read as the operands, if there are enough steps for each of them. -/
theorem map_readSteps_operands {bound steps : Nat} {fs : List Formula}
    (hreads : ∀ f ∈ fs, f.Reads)
    (hsteps : ∀ t ∈ fs.map fun f => Formula.enclosed bound f.level f.chars, t.length < steps) :
    (fs.map fun f => Formula.enclosed bound f.level f.chars).map (readSteps steps) =
      fs.map toExpression := by
  rw [List.map_map]
  apply List.map_congr_left
  intro f hf
  exact (hreads f hf).enclosed bound (hsteps _ (List.mem_map_of_mem hf))

/-- An operand hides no mark of a membership test. -/
theorem passesMark_operand (f : Formula) :
    PassesMark (Formula.enclosed 4 f.level f.chars) := by
  have hbrackets : f.level ≤ 4 → PassesMark (Formula.enclosed 4 f.level f.chars) := by
    intro hlevel
    rw [Formula.enclosed, if_pos hlevel]
    have hnested : Scan.Nested ['.'] ('(' :: (f.chars ++ [')'])) :=
      (f.written.nested.mono (List.nil_subset _)).enclosed
    exact passesMark_of_nested hnested (by decide)
  cases f with
  | atom a => exact a.scanned.2.2
  | anyOf | allOf | negated | compared | includes => exact hbrackets (by simp [level])

/-- The text of a tree is read as the tree. -/
theorem reads (f : Formula) : f.Reads := by
  induction f using Formula.induction with
  | anyOf first second more hfirst hsecond hmore =>
      intro steps hsteps
      cases steps with
      | zero => contradiction
      | succ steps =>
          have hall : ∀ f ∈ first :: second :: more, f.Reads := by
            simpa using ⟨hfirst, hsecond, hmore⟩
          -- the operands stand in brackets where they bind more weakly, and are cut at the top
          -- level
          have hwritten := written_operands 0 fun f (_ : f ∈ first :: second :: more) => f.written
          rw [chars, operandChars_eq] at hsteps ⊢
          have hread := map_readSteps_operands hall
            fun t ht => Nat.lt_of_lt_of_le (Scan.length_lt_joined ht) (Nat.le_of_lt_succ hsteps)
          simp only [List.map_cons] at hwritten hread
          rw [toExpression, toExpressions_eq, ← hread]
          exact readSteps_joinedAny hwritten steps
  | allOf first second more hfirst hsecond hmore =>
      intro steps hsteps
      cases steps with
      | zero => contradiction
      | succ steps =>
          have hall : ∀ f ∈ first :: second :: more, f.Reads := by
            simpa using ⟨hfirst, hsecond, hmore⟩
          have hwritten := written_operands 1 fun f (_ : f ∈ first :: second :: more) => f.written
          rw [chars, operandChars_eq] at hsteps ⊢
          have hread := map_readSteps_operands hall
            fun t ht => Nat.lt_of_lt_of_le (Scan.length_lt_joined ht) (Nat.le_of_lt_succ hsteps)
          simp only [List.map_cons] at hwritten hread
          rw [toExpression, toExpressions_eq, ← hread]
          exact readSteps_joinedAll hwritten steps
  | negated operand ih =>
      intro steps hsteps
      rw [chars] at hsteps ⊢
      cases steps with
      | zero => contradiction
      | succ steps =>
          -- the negated operand stands in brackets unless it binds more tightly
          rw [readSteps_not (operand.written.enclosed 2), ih.enclosed 2 (by simpa using hsteps)]
          rfl
  | compared op left right hleft hright =>
      intro steps hsteps
      rw [chars] at hsteps ⊢
      simp only [List.length_append, List.length_cons] at hsteps
      cases steps with
      | zero => contradiction
      | succ steps =>
          rw [readSteps_comparison (left.written.enclosed 3) (right.written.enclosed 3),
            hleft.enclosed 3 (by omega), hright.enclosed 3 (by omega)]
          rfl
  | includes haystack needle hhaystack hneedle =>
      intro steps hsteps
      rw [chars] at hsteps ⊢
      simp only [List.length_append, List.length_cons] at hsteps
      cases steps with
      | zero => contradiction
      | succ steps =>
          rw [readSteps_includes (haystack.written.enclosed 4) haystack.passesMark_operand
            needle.written, hhaystack.enclosed 4 (by omega), hneedle steps (by omega)]
          rfl
  | atom a =>
      intro steps hsteps
      cases steps with
      | zero => contradiction
      | succ steps =>
          rw [chars]
          exact a.readSteps_chars steps

/-- **The text of a tree evaluates to the meaning of the tree**, for every tree over the operators
and leaves of the grammar and over every mapping. -/
theorem evaluateText_chars (root : Entries) (f : Formula) :
    evaluateText root f.chars = f.meaning root := by
  have hread : ofText f.chars = f.toExpression := f.reads _ (Nat.lt_succ_self _)
  rw [evaluateText, hread, evaluate_toExpression]

end Formula

end Runbook

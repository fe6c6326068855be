import Runbook.Expression.Reading
import Runbook.Proofs.Expression.Scan
import Runbook.Proofs.Value.Reading

/-!
# Runbook.Proofs.Expression.Reading

One law for each way to read a text as an expression. Every law is about a solid text, which is one
without blanks around it; `readSteps_trim` brings any other text into that form. The laws name what
the scans find: brackets around the whole, the parts between operators, negations in front, the two
sides of a comparison, the two parts of a membership test, or nothing of all that.
-/

namespace Runbook.Expression

/-- Blanks around a text do not count. -/
theorem readSteps_trim (steps : Nat) (cs : List Char) :
    readSteps steps (Text.trim cs) = readSteps steps cs := by
  cases steps with
  | zero => rfl
  | succ steps => rw [readSteps, readSteps, Text.trim_trim]

/-- Pieces are read like the texts that trimming makes of them. -/
theorem exists_pieces {pieces texts : List (List Char)} {first second : List Char}
    (h : pieces.map Text.trim = first :: second :: texts) (steps : Nat) :
    ∃ first' second' more', pieces = first' :: second' :: more' ∧
      (first' :: second' :: more').map (readSteps steps) =
        (first :: second :: texts).map (readSteps steps) := by
  obtain ⟨first', rest, hpieces, -, hrest⟩ := List.map_eq_cons_iff.1 h
  obtain ⟨second', more', hrest', -⟩ := List.map_eq_cons_iff.1 hrest
  refine ⟨first', second', more', by rw [hpieces, hrest'], ?_⟩
  rw [← h, hpieces, hrest', List.map_map]
  exact List.map_congr_left fun piece _ => (readSteps_trim steps piece).symm

/-- Without an alternative at the top level the text is not split. -/
theorem splitTop_or {cs : List Char} (h : Scan.cutTop? ['|', '|'] Scan.top cs = none) :
    Scan.splitTop "||".toList cs = [cs] :=
  Scan.splitTop_of_eq_none h

/-- Without a conjunction at the top level the text is not split. -/
theorem splitTop_and {cs : List Char} (h : Scan.cutTop? ['&', '&'] Scan.top cs = none) :
    Scan.splitTop "&&".toList cs = [cs] :=
  Scan.splitTop_of_eq_none h

section Laws

-- the laws follow the branches of the reader
attribute [local simp] readSteps

variable {cs : List Char} (hsolid : Text.Solid cs) (steps : Nat)
include hsolid

/-- Brackets around the whole text are taken off. -/
theorem readSteps_enclosed {inner : List Char} (h : Scan.unwrapped? cs = some inner) :
    readSteps (steps + 1) cs = readSteps steps inner := by
  simp [hsolid.trim_eq, hsolid.isEmpty_eq, h]

variable (hopen : Scan.unwrapped? cs = none)
include hopen

/-- A text with an alternative at the top level is the alternative of its parts. -/
theorem readSteps_anyOf {first second : List Char} {more : List (List Char)}
    (h : (Scan.splitTop ['|', '|'] cs).map Text.trim = first :: second :: more) :
    readSteps (steps + 1) cs = .anyOf ((first :: second :: more).map (readSteps steps)) := by
  obtain ⟨first', second', more', hsplit, hread⟩ := exists_pieces h steps
  rw [← hread]
  simp [hsolid.trim_eq, hsolid.isEmpty_eq, hopen, hsplit]

variable (hany : Scan.cutTop? ['|', '|'] Scan.top cs = none)
include hany

/-- Without an alternative, a text with a conjunction at the top level is the conjunction of its
parts. -/
theorem readSteps_allOf {first second : List Char} {more : List (List Char)}
    (h : (Scan.splitTop ['&', '&'] cs).map Text.trim = first :: second :: more) :
    readSteps (steps + 1) cs = .allOf ((first :: second :: more).map (readSteps steps)) := by
  obtain ⟨first', second', more', hsplit, hread⟩ := exists_pieces h steps
  rw [← hread]
  simp [hsolid.trim_eq, hsolid.isEmpty_eq, hopen, Scan.splitTop_of_eq_none hany, hsplit]

variable (hall : Scan.cutTop? ['&', '&'] Scan.top cs = none)
include hall

/-- Without either, negations in front are taken off and counted. -/
theorem readSteps_negated {times : Nat} {inner : List Char} (hinner : Text.Solid inner)
    (h : negations cs.length cs = (times + 1, inner)) :
    readSteps (steps + 1) cs = .negated (times + 1) (readSteps steps inner) := by
  simp [hsolid.trim_eq, hsolid.isEmpty_eq, hopen, Scan.splitTop_of_eq_none hany,
    Scan.splitTop_of_eq_none hall, h, hinner.trim_eq, hinner.isEmpty_eq]

variable {rest : List Char} (hnot : negations cs.length cs = (0, rest))
include hnot

/-- Without them, a text with a comparison at the top level compares its two sides. -/
theorem readSteps_compared {op : Comparison} {left right : List Char}
    (hleft : Text.Solid (Text.trim left)) (hright : Text.Solid (Text.trim right))
    (h : comparison? cs comparisons = some (op, left, right)) :
    readSteps (steps + 1) cs = .compared op (readSteps steps left) (readSteps steps right) := by
  simp [hsolid.trim_eq, hsolid.isEmpty_eq, hopen, Scan.splitTop_of_eq_none hany,
    Scan.splitTop_of_eq_none hall, hnot, h, hleft.isEmpty_eq, hright.isEmpty_eq]

variable (hcompared : comparison? cs comparisons = none)
include hcompared

/-- Without a comparison, a text with the mark of a membership test is one. -/
theorem readSteps_membership {before after haystack needle : List Char}
    (h : Scan.cutTop? includesMark Scan.top cs = some (before, after))
    (hparts : membershipParts cs before after = .ok (haystack, needle)) :
    readSteps (steps + 1) cs = .membership (readSteps steps haystack) (readSteps steps needle) := by
  simp [hsolid.trim_eq, hsolid.isEmpty_eq, hopen, Scan.splitTop_of_eq_none hany,
    Scan.splitTop_of_eq_none hall, hnot, hcompared, h, hparts]

/-- A text without any operator is a leaf. -/
theorem readSteps_atom (h : Scan.cutTop? includesMark Scan.top cs = none) :
    readSteps (steps + 1) cs = atom cs := by
  simp [hsolid.trim_eq, hsolid.isEmpty_eq, hopen, Scan.splitTop_of_eq_none hany,
    Scan.splitTop_of_eq_none hall, hnot, hcompared, h]

end Laws

/-! ## what the scans find -/

/-- A text that does not start with a negation has none in front. -/
theorem negations_eq_zero {cs : List Char} (h : ∀ c, cs.head? = some c → c ≠ '!') (steps : Nat) :
    negations steps cs = (0, cs) := by
  cases steps with
  | zero => rfl
  | succ steps =>
      cases cs with
      | nil => rfl
      | cons c cs =>
          have hc : c ≠ '!' := h c rfl
          simp [negations, hc]

/-- A single negation in front of a text. -/
theorem negations_eq_one {c : Char} {cs : List Char} (hblank : Text.isBlank c = false)
    (hnot : c ≠ '!') (hequal : c ≠ '=') (steps : Nat) :
    negations (steps + 1) ('!' :: c :: cs) = (1, c :: cs) := by
  have hrest : negations steps (c :: cs) = (0, c :: cs) :=
    negations_eq_zero (by simpa using hnot) steps
  simp [negations, Text.trimStart_cons hblank, hrest, hequal]

/-- The characters that comparisons start with. -/
def comparisonChars : List Char := ['!', '=', '<', '>']

/-- No comparison is found in a text without the characters of comparisons. -/
theorem comparison?_eq_none {loud cs : List Char} (hcs : Scan.Nested loud cs)
    (hloud : comparisonChars ⊆ loud) : comparison? cs comparisons = none := by
  have hnone : ∀ m ∈ comparisonChars, ∀ ms, Scan.cutTop? (m :: ms) Scan.top cs = none :=
    fun m hm ms => hcs.cutTop?_eq_none (hloud hm) ms
  have hnot := hnone '!' (by decide)
  have hequal := hnone '=' (by decide)
  have hless := hnone '<' (by decide)
  have hgreater := hnone '>' (by decide)
  simp [comparison?, comparisons, Comparison.sign, hnot, hequal, hless, hgreater]

/-- The comparison between two nested texts is found, whichever of the six it is. -/
theorem comparison?_eq_some {loud left right : List Char} (hleft : Scan.Nested loud left)
    (hright : Scan.Nested loud (' ' :: right)) (hloud : comparisonChars ⊆ loud)
    (op : Comparison) :
    comparison? (left ++ (op.sign.toList ++ ' ' :: right)) comparisons =
      some (op, left, ' ' :: right) := by
  have hskip (m : Char) (hm : m ∈ comparisonChars) := hleft.cutTop?_append (hloud hm)
  have hnone : ∀ m ∈ comparisonChars, ∀ ms, Scan.cutTop? (m :: ms) Scan.top (' ' :: right) = none :=
    fun m hm ms => hright.cutTop?_eq_none (hloud hm) ms
  have hskipNot := hskip '!' (by decide)
  have hskipEqual := hskip '=' (by decide)
  have hskipLess := hskip '<' (by decide)
  have hskipGreater := hskip '>' (by decide)
  have hnot := hnone '!' (by decide)
  have hequal := hnone '=' (by decide)
  have hless := hnone '<' (by decide)
  have hgreater := hnone '>' (by decide)
  have hlead : Text.dropLead? ['='] (' ' :: right) = none := Text.dropLead?_cons_ne (by decide) _ _
  generalize ' ' :: right = rest at hnot hequal hless hgreater hlead
  have hplain : ∀ m ∈ comparisonChars, Scan.delimits m = false := by decide
  have h1 := hplain '!' (by decide)
  have h2 := hplain '=' (by decide)
  have h3 := hplain '<' (by decide)
  have h4 := hplain '>' (by decide)
  cases op <;>
    simp [comparison?, comparisons, Comparison.sign, hskipNot, hskipEqual, hskipLess, hskipGreater,
      Scan.cutTop?_plain, h1, h2, h3, h4, hnot, hequal, hless, hgreater, hlead, Text.dropLead?]

/-- There is no comparison exactly if there is no cut at any of the signs. -/
theorem comparison?_eq_none_iff (cs : List Char) (ops : List Comparison) :
    comparison? cs ops = none ↔
      ∀ op ∈ ops, Scan.cutTop? op.sign.toList Scan.top cs = none := by
  induction ops with
  | nil => simp [comparison?]
  | cons op ops ih =>
      rw [comparison?, List.forall_mem_cons, ← ih]
      cases Scan.cutTop? op.sign.toList Scan.top cs with
      | none => simp
      | some cut => simp

/-- An equation is found where no inequation is. -/
theorem comparison?_equal_iff (cs left right : List Char) :
    comparison? cs comparisons = some (.equal, left, right) ↔
      Scan.cutTop? ['!', '='] Scan.top cs = none ∧
        Scan.cutTop? ['=', '='] Scan.top cs = some (left, right) := by
  constructor
  · intro h
    simp only [comparisons, comparison?] at h
    split at h
    · cases h
    · next hnot =>
        split at h
        · next hequal =>
            cases h
            exact ⟨hnot, hequal⟩
        · repeat' split at h
          all_goals cases h
  · rintro ⟨hnot, hequal⟩
    simp [comparisons, comparison?, Comparison.sign, hnot, hequal]

/-- The two parts of a membership test: what stands before the mark, and what stands in its
brackets. -/
theorem membershipParts_eq_ok {haystack needle : List Char} (hhaystack : Text.Solid haystack)
    (hneedle : Text.Solid needle) (hbalanced : Scan.balanced 0 none needle = true)
    (cs : List Char) :
    membershipParts cs haystack (needle ++ [')']) = .ok (haystack, needle) := by
  have htail : Text.dropTail? [')'] (needle ++ [')']) = some needle :=
    Text.dropTail?_eq_some_iff.2 rfl
  simp [membershipParts, htail, hhaystack.trim_eq, hneedle.trim_eq, hhaystack.isEmpty_eq,
    hneedle.isEmpty_eq, hbalanced]

/-! ## what a reading tells -/

/-- The operators that are looked for. -/
def operators : List (List Char) :=
  ['|', '|'] :: ['&', '&'] :: includesMark :: comparisons.map fun op => op.sign.toList

/-- The sign of each comparison is one of the operators. -/
theorem sign_mem_operators (op : Comparison) : op.sign.toList ∈ operators := by
  cases op <;> decide

section Inversion

variable {cs : List Char} (hsolid : Text.Solid cs) (steps : Nat)
  (hopen : Scan.unwrapped? cs = none)
include hsolid hopen

/-- What is not read as an alternative has none at the top level. -/
theorem cutTop?_or_of_readSteps (h : ∀ parts, readSteps (steps + 1) cs ≠ .anyOf parts) :
    Scan.cutTop? ['|', '|'] Scan.top cs = none := by
  cases hcut : Scan.cutTop? ['|', '|'] Scan.top cs with
  | none => rfl
  | some cut =>
      obtain ⟨second, more, hsplit⟩ := Scan.splitTop_of_eq_some hcut
      exact absurd (readSteps_anyOf hsolid steps hopen (by rw [hsplit]; rfl)) (h _)

/-- What is not read as a conjunction either has none at the top level. -/
theorem cutTop?_and_of_readSteps (hany : Scan.cutTop? ['|', '|'] Scan.top cs = none)
    (h : ∀ parts, readSteps (steps + 1) cs ≠ .allOf parts) :
    Scan.cutTop? ['&', '&'] Scan.top cs = none := by
  cases hcut : Scan.cutTop? ['&', '&'] Scan.top cs with
  | none => rfl
  | some cut =>
      obtain ⟨second, more, hsplit⟩ := Scan.splitTop_of_eq_some hcut
      exact absurd (readSteps_allOf hsolid steps hopen hany (by rw [hsplit]; rfl)) (h _)

/-- A text that is read as a comparison is cut at the comparison. -/
theorem comparison?_of_readSteps {op : Comparison} {left right : Expression}
    (h : readSteps (steps + 1) cs = .compared op left right) :
    ∃ before after, comparison? cs comparisons = some (op, before, after) ∧
      readSteps steps before = left ∧ readSteps steps after = right := by
  have hany := cutTop?_or_of_readSteps hsolid steps hopen (by simp [h])
  have hall := cutTop?_and_of_readSteps hsolid steps hopen hany (by simp [h])
  simp only [readSteps, hsolid.trim_eq, hsolid.isEmpty_eq, hopen, splitTop_or hany,
    splitTop_and hall, Bool.false_eq_true, if_false] at h
  split at h
  · split at h <;> cases h
  · split at h
    · next before after hcut =>
        split at h
        · cases h
        · cases h
          exact ⟨before, after, hcut, rfl, rfl⟩
    · split at h
      · split at h <;> cases h
      · unfold atom at h
        repeat' split at h
        all_goals cases h

/-- A text that is read as a value shows no operator and is a literal. -/
theorem literal?_of_readSteps {v : Value} (h : readSteps (steps + 1) cs = .literal v) :
    (∀ operator ∈ operators, Scan.cutTop? operator Scan.top cs = none) ∧
      literal? cs = some v := by
  have hany := cutTop?_or_of_readSteps hsolid steps hopen (by simp [h])
  have hall := cutTop?_and_of_readSteps hsolid steps hopen hany (by simp [h])
  simp only [readSteps, hsolid.trim_eq, hsolid.isEmpty_eq, hopen, splitTop_or hany,
    splitTop_and hall, Bool.false_eq_true, if_false] at h
  split at h
  · split at h <;> cases h
  · split at h
    · split at h <;> cases h
    · next hcompared =>
        split at h
        · split at h <;> cases h
        · next hmark =>
            constructor
            · intro operator hoperator
              simp only [operators, List.mem_cons, List.mem_map] at hoperator
              rcases hoperator with rfl | rfl | rfl | ⟨op, hop, rfl⟩
              · exact hany
              · exact hall
              · exact hmark
              · exact (comparison?_eq_none_iff cs comparisons).1 hcompared op hop
            · unfold atom at h
              split at h
              · next hliteral =>
                  cases h
                  exact hliteral
              · split at h <;> cases h

end Inversion

end Runbook.Expression

import Runbook.Proofs.Expression.Grammar
import Runbook.Proofs.Number.Rounding

/-!
# Runbook.Proofs.Expression.Comparison

Comparing integers in expressions. Two names with a comparison between them compare the values that
the names are bound to, and integers are compared as floating point numbers: whatever a comparison
says, it says of the rounded integers. It says the same of the integers themselves exactly if they
are equal or rounding keeps them apart (`comparisons_exact_iff`).
-/

namespace Runbook

open Expression

/-! ## integers -/

/-- What a comparison says of two integers. -/
def Comparison.holds (op : Comparison) (a b : Int) : Bool :=
  match op with
  | .notEqual => a ≠ b
  | .equal => a = b
  | .atLeast => b ≤ a
  | .atMost => a ≤ b
  | .greater => b < a
  | .less => a < b

/-- Of two integers the smaller is told by their roundings. -/
theorem Number.measure_lt (a b : Int) :
    (Number.int a).measure.lt (Number.int b).measure = decide (rounded a < rounded b) := by
  simp [Number.measure, Measure.lt, ordinal_doubleOfInt_lt_iff]

/-- So is the one that is not larger. -/
theorem Number.measure_le (a b : Int) :
    (Number.int a).measure.le (Number.int b).measure = decide (rounded a ≤ rounded b) := by
  have hlt := ordinal_doubleOfInt_lt_iff b a
  have hle : (doubleOfInt a).ordinal ≤ (doubleOfInt b).ordinal ↔ rounded a ≤ rounded b := by
    omega
  simp [Number.measure, Measure.le, hle]

/-- Integers are equal for conditions if they are rounded to one. -/
theorem Value.looselyEqual_int (a b : Int) :
    (Value.number (.int a)).looselyEqual (.number (.int b)) =
      decide (Number.rounded a = Number.rounded b) := by
  by_cases hab : a = b
  · subst hab
    simp [looselyEqual, same, Number.same]
  · have hsame : (Value.number (.int a)).same (.number (.int b)) = false := by
      simpa [same, Number.same] using hab
    rw [looselyEqual, hsame, Number.measure_le, Number.measure_le, Bool.eq_iff_iff]
    simp only [Bool.false_eq_true, if_false, Bool.and_eq_true, decide_eq_true_eq]
    omega

/-- A comparison of two integers says what it says of the rounded ones. -/
theorem Comparison.test_int (op : Comparison) (a b : Int) :
    op.test (.number (.int a)) (.number (.int b)) =
      .ok (op.holds (Number.rounded a) (Number.rounded b)) := by
  cases op <;>
    simp [test, test.order, holds, Value.looselyEqual_int, Value.measure?, Number.measure_le,
      Number.measure_lt]

/-- Rounded integers compare like the integers, unless two that differ become one. -/
theorem Comparison.holds_rounded_iff (a b : Int) :
    (∀ op : Comparison, op.holds (Number.rounded a) (Number.rounded b) = op.holds a b) ↔
      a = b ∨ Number.rounded a ≠ Number.rounded b := by
  constructor
  · intro h
    by_contra hnot
    obtain ⟨hne, heq⟩ := not_or.mp hnot
    have hequal := h .equal
    simp [holds, hne, not_not.mp heq] at hequal
  · rintro (rfl | hne) op
    · cases op <;> simp [holds]
    · -- the order is kept, so only equality could have changed
      have hlow : a ≤ b → Number.rounded a ≤ Number.rounded b := Number.rounded_mono
      have hhigh : b ≤ a → Number.rounded b ≤ Number.rounded a := Number.rounded_mono
      have hab : a ≠ b := fun hab => hne (by rw [hab])
      cases op <;> simp only [holds, decide_eq_decide] <;> omega

/-! ## names -/

/-- Two names with a comparison between them. -/
def comparisonText (x : Identifier) (op : Comparison) (y : Identifier) : List Char :=
  x.chars ++ ' ' :: (op.sign.toList ++ ' ' :: y.chars)

section

variable {root : Entries} {x y : Identifier}

/-- Two names with a sign between them are read as a comparison of references. -/
theorem ofText_comparisonText (op : Comparison) : ofText (comparisonText x op y) =
    .compared op (.reference (String.ofList x.chars)) (.reference (String.ofList y.chars)) := by
  have hname : ∀ z : Identifier, Written 4 z.chars ∧
      ∀ steps, readSteps (steps + 1) z.chars = .reference (String.ofList z.chars) := by
    intro z
    have hchars : (Atom.path ⟨z, []⟩).chars = z.chars := List.append_nil z.chars
    refine ⟨hchars ▸ (Atom.path ⟨z, []⟩).written 4, fun steps => ?_⟩
    have hread := (Atom.path ⟨z, []⟩).readSteps_chars steps
    rw [hchars] at hread
    rw [hread, Atom.toExpression, Reference.chars, List.flatMap_nil, List.append_nil]
  obtain ⟨hx, hreadx⟩ := hname x
  obtain ⟨hy, hready⟩ := hname y
  obtain ⟨steps, hsteps⟩ : ∃ steps, (comparisonText x op y).length = steps + 1 :=
    ⟨x.chars.length + (op.sign.toList.length + (y.chars.length + 1)), by
      simp [comparisonText]; omega⟩
  rw [ofText, hsteps, comparisonText, readSteps_comparison hx hy, hreadx, hready]

/-- Two names with a comparison between them compare the values that they are bound to. -/
theorem evaluateText_comparisonText {v w : Value}
    (hx : Entries.get? (String.ofList x.chars) root = some v)
    (hy : Entries.get? (String.ofList y.chars) root = some w) (op : Comparison) :
    evaluateText root (comparisonText x op y) = (op.test v w).map .bool := by
  rw [evaluateText, ofText_comparisonText]
  simp [evaluate, dereference, hx, hy, asOperand]

/-- Two names with a comparison between them say of integers what the comparison says of the
rounded ones. -/
theorem evaluateText_int {a b : Int}
    (hx : Entries.get? (String.ofList x.chars) root = some (.number (.int a)))
    (hy : Entries.get? (String.ofList y.chars) root = some (.number (.int b))) (op : Comparison) :
    evaluateText root (comparisonText x op y) =
      .ok (.bool (op.holds (Number.rounded a) (Number.rounded b))) := by
  rw [evaluateText_comparisonText hx hy, Comparison.test_int]
  rfl

/-- **When comparisons are exact.** Each comparison of two names that are bound to integers says
what it says of the rounded integers. All of them say what is true of the integers exactly if these
are equal or are rounded to different ones; so they do for all integers up to 2 ^ 53. -/
theorem comparisons_exact_iff {a b : Int}
    (hx : Entries.get? (String.ofList x.chars) root = some (.number (.int a)))
    (hy : Entries.get? (String.ofList y.chars) root = some (.number (.int b))) :
    (∀ op, evaluateText root (comparisonText x op y) =
        .ok (.bool (op.holds (Number.rounded a) (Number.rounded b)))) ∧
      ((∀ op, evaluateText root (comparisonText x op y) = .ok (.bool (op.holds a b))) ↔
        a = b ∨ Number.rounded a ≠ Number.rounded b) ∧
      (a.natAbs ≤ 2 ^ 53 → b.natAbs ≤ 2 ^ 53 →
        ∀ op, evaluateText root (comparisonText x op y) = .ok (.bool (op.holds a b))) := by
  have hvalue := evaluateText_int hx hy
  refine ⟨hvalue, ?_, ?_⟩
  · rw [← Comparison.holds_rounded_iff]
    simp [hvalue]
  · intro ha hb op
    rw [hvalue, Number.rounded_of_natAbs_le ha, Number.rounded_of_natAbs_le hb]

end

/-! ### neighbours -/

/-- A letter alone as a name. -/
def letter (c : Char) (hname : isNameChar c = true) (hstart : c.isDigit = false ∧ c ≠ '-') :
    Identifier where
  chars := [c]
  ne_nil := List.cons_ne_nil c []
  isNameChar := by simpa using hname
  starts := by simpa using hstart
  ne_word := by simp

/-- The name `x`. -/
def letterX : Identifier := letter 'x' (by decide) (by decide)

/-- The name `y`. -/
def letterY : Identifier := letter 'y' (by decide) (by decide)

/-- Two integers under the names. -/
def pairOf (a b : Int) : Entries := [("x", .number (.int a)), ("y", .number (.int b))]

/-- The largest integer is compared exactly with one that is not rounded to the same, though
neither of them stays as it is. -/
theorem comparisons_exact_iff_largest :
    Entries.get? "x" (pairOf 18446744073709551615 9007199254740993) =
        some (.number (.int 18446744073709551615)) ∧
      Entries.get? "y" (pairOf 18446744073709551615 9007199254740993) =
        some (.number (.int 9007199254740993)) ∧
      ∀ op, evaluateText (pairOf 18446744073709551615 9007199254740993)
          (comparisonText letterX op letterY) =
        .ok (.bool (op.holds 18446744073709551615 9007199254740993)) :=
  ⟨rfl, rfl, (comparisons_exact_iff rfl rfl).2.1.mpr (.inr (by decide))⟩

/-- The integer behind 2 ^ 53 and 2 ^ 53 count as equal. -/
theorem neighbours_equal :
    evaluateText (pairOf 9007199254740993 9007199254740992) "x == y".toList = .ok (.bool true) ∧
      (9007199254740993 : Int) ≠ 9007199254740992 := by
  have hvalue : evaluateText (pairOf 9007199254740993 9007199254740992)
      (comparisonText letterX .equal letterY) = .ok (.bool (Comparison.equal.holds
        (Number.rounded 9007199254740993) (Number.rounded 9007199254740992))) :=
    evaluateText_int rfl rfl .equal
  have hrounded : Comparison.equal.holds (Number.rounded 9007199254740993)
      (Number.rounded 9007199254740992) = true := by decide
  rw [hrounded] at hvalue
  exact ⟨hvalue, by decide⟩

end Runbook

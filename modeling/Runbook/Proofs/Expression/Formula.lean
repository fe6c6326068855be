import Runbook.Expression.Reading
import Runbook.Proofs.Expression.Scan

/-!
# Runbook.Proofs.Expression.Formula

The grammar of expressions as a type of its own. A `Formula` is a tree over the operators, whose
leaves are null, booleans, integers, quoted texts and paths; what makes a leaf well formed is part
of it. `Formula.chars` writes a tree, with brackets around an operand that does not bind more
tightly than its operator, and `Formula.meaning` is its value over a mapping, told without the
expressions that texts are read as.

`evaluate_toExpression` joins the two halves of the reading: the expression of a tree evaluates to
the meaning of the tree.
-/

namespace Runbook

/-! ## leaves -/

/-- A character of a name: no blank, quote, bracket, point, or part of an operator. -/
def isNameChar (c : Char) : Bool :=
  !Text.isBlank c && !Scan.delimits c && !List.contains ['.', '|', '&', '!', '=', '<', '>'] c

/-- A run of name characters. -/
structure Name where
  chars : List Char
  ne_nil : chars ≠ []
  isNameChar : ∀ c ∈ chars, isNameChar c = true

/-- A name that does not start like a number and is none of the words for values. -/
structure Identifier extends Name where
  starts : ∀ c, chars.head? = some c → c.isDigit = false ∧ c ≠ '-'
  ne_word : chars ≠ "null".toList ∧ chars ≠ "true".toList ∧ chars ≠ "false".toList

/-- A key in brackets, which has no blanks and no quotes of either kind. -/
structure BracketKey where
  chars : List Char
  plain : ∀ c ∈ chars, Path.isQuote c = false ∧ Text.isBlank c = false

/-- A move into a value, as it is spelled. -/
inductive Spelling where
  /-- A point and a name. -/
  | member (name : Name)
  /-- An index in brackets. -/
  | item (n : Nat)
  /-- A key in brackets and in single or double quotes. -/
  | entry (single : Bool) (key : BracketKey)

def Spelling.chars : Spelling → List Char
  | .member name => '.' :: name.chars
  | .item n => '[' :: (Text.digits n ++ [']'])
  | .entry true key => '[' :: ('\'' :: (key.chars ++ ['\'']) ++ [']'])
  | .entry false key => '[' :: ('"' :: (key.chars ++ ['"']) ++ [']'])

/-- A path without blanks. -/
structure Reference where
  head : Identifier
  moves : List Spelling

def Reference.chars (r : Reference) : List Char := r.head.chars ++ r.moves.flatMap Spelling.chars

/-- An integer of one word, signed or not. -/
structure WordInteger where
  value : Int
  lower : -(Text.signedLimit : Int) ≤ value
  upper : value < Text.wordLimit

/-- A text that can stand in single quotes. -/
structure PlainText where
  chars : List Char
  plain : '\'' ∉ chars

/-- A leaf of a formula. -/
inductive Atom where
  | null
  | bool (b : Bool)
  | integer (i : WordInteger)
  | text (t : PlainText)
  | path (r : Reference)

namespace Atom

def chars : Atom → List Char
  | .null => "null".toList
  | .bool b => Value.boolText b
  | .integer i => Text.integerText i.value
  | .text t => '\'' :: (t.chars ++ ['\''])
  | .path r => r.chars

/-- The value of a leaf. A path is a key of the mapping or else leads into it. -/
def value? (root : Entries) : Atom → Option Value
  | .null => some .null
  | .bool b => some (.bool b)
  | .integer i => some (.number (.int i.value))
  | .text t => some (.string (String.ofList t.chars))
  | .path r => Expression.dereference root (String.ofList r.chars)

def toExpression : Atom → Expression
  | .null => .literal .null
  | .bool b => .literal (.bool b)
  | .integer i => .literal (.number (.int i.value))
  | .text t => .literal (.string (String.ofList t.chars))
  | .path r => .reference (String.ofList r.chars)

end Atom

/-! ## trees -/

/-- An expression as a tree. Alternatives and conjunctions have two operands or more. -/
inductive Formula where
  | anyOf (first second : Formula) (more : List Formula)
  | allOf (first second : Formula) (more : List Formula)
  | negated (operand : Formula)
  | compared (op : Comparison) (left right : Formula)
  | includes (haystack needle : Formula)
  | atom (a : Atom)

namespace Formula

/-- Induction on trees, where all operands of an operator have the property. -/
@[elab_as_elim]
theorem induction {motive : Formula → Prop}
    (anyOf : ∀ first second more, motive first → motive second → (∀ f ∈ more, motive f) →
      motive (.anyOf first second more))
    (allOf : ∀ first second more, motive first → motive second → (∀ f ∈ more, motive f) →
      motive (.allOf first second more))
    (negated : ∀ operand, motive operand → motive (.negated operand))
    (compared : ∀ op left right, motive left → motive right → motive (.compared op left right))
    (includes : ∀ haystack needle, motive haystack → motive needle →
      motive (.includes haystack needle))
    (atom : ∀ a, motive (.atom a)) (f : Formula) : motive f :=
  @Formula.rec motive (fun fs => ∀ f ∈ fs, motive f) anyOf allOf negated compared includes atom
    (fun f hf => by simp at hf)
    (fun f fs hf hfs g hg => (List.mem_cons.1 hg).elim (fun h => h ▸ hf) (hfs g)) f

/-- How tightly the operator of a tree binds. -/
def level : Formula → Nat
  | .anyOf .. => 0
  | .allOf .. => 1
  | .negated _ => 2
  | .compared .. => 3
  | .includes .. => 4
  | .atom _ => 5

/-- An operand of an operator of level `bound`: in brackets, unless it binds more tightly. -/
def enclosed (bound level : Nat) (cs : List Char) : List Char :=
  if level ≤ bound then '(' :: (cs ++ [')']) else cs

mutual

/-- The text of a tree, with blanks around the operators between two operands. -/
def chars : Formula → List Char
  | .anyOf first second more =>
    Scan.joined "||".toList (enclosed 0 first.level first.chars)
      (enclosed 0 second.level second.chars :: operandChars 0 more)
  | .allOf first second more =>
    Scan.joined "&&".toList (enclosed 1 first.level first.chars)
      (enclosed 1 second.level second.chars :: operandChars 1 more)
  | .negated operand => '!' :: enclosed 2 operand.level operand.chars
  | .compared op left right =>
    enclosed 3 left.level left.chars ++
      ' ' :: (op.sign.toList ++ ' ' :: enclosed 3 right.level right.chars)
  | .includes haystack needle =>
    enclosed 4 haystack.level haystack.chars ++
      (Expression.includesMark ++ (needle.chars ++ [')']))
  | .atom a => a.chars
termination_by structural f => f

/-- The texts of the operands of an operator. -/
def operandChars (bound : Nat) : List Formula → List (List Char)
  | [] => []
  | f :: fs => enclosed bound f.level f.chars :: operandChars bound fs
termination_by structural fs => fs

end

/-! ## meaning -/

/-- Is one of the results true? Results behind the first true one or the first error do not
count. -/
def anyTrue : List (Except ExpressionError Value) → Except ExpressionError Bool
  | [] => return false
  | result :: results => do
    if (← result).isTruthy then return true
    anyTrue results

/-- Are all results true? Results behind the first false one or the first error do not count. -/
def allTrue : List (Except ExpressionError Value) → Except ExpressionError Bool
  | [] => return true
  | result :: results => do
    if !(← result).isTruthy then return false
    allTrue results

mutual

/-- The value of a tree inside an operator, where a path that leads nowhere counts as null. -/
def operandValue (root : Entries) : Formula → Except ExpressionError Value
  | .anyOf first second more => do
    return .bool (← anyTrue
      (operandValue root first :: operandValue root second :: operandValues root more))
  | .allOf first second more => do
    return .bool (← allTrue
      (operandValue root first :: operandValue root second :: operandValues root more))
  | .negated operand => do return .bool (!(← operandValue root operand).isTruthy)
  | .compared op left right => do
    let l ← operandValue root left
    let r ← operandValue root right
    return .bool (← op.test l r)
  | .includes haystack needle => do
    let h ← operandValue root haystack
    let n ← operandValue root needle
    return .bool (h.holds n)
  | .atom a => return (a.value? root).getD .null
termination_by structural f => f

/-- The values of the operands of an operator. -/
def operandValues (root : Entries) : List Formula → List (Except ExpressionError Value)
  | [] => []
  | f :: fs => operandValue root f :: operandValues root fs
termination_by structural fs => fs

end

/-- The value of a tree: a path that leads nowhere has none. -/
def meaning (root : Entries) : Formula → Except ExpressionError Value
  | .atom a =>
    match a.value? root with
    | some v => .ok v
    | none => .error (.unknownReference (String.ofList a.chars))
  | f => f.operandValue root

/-! ## trees as expressions -/

mutual

/-- The expression that a tree stands for. -/
def toExpression : Formula → Expression
  | .anyOf first second more =>
    .anyOf (first.toExpression :: second.toExpression :: toExpressions more)
  | .allOf first second more =>
    .allOf (first.toExpression :: second.toExpression :: toExpressions more)
  | .negated operand => .negated 1 operand.toExpression
  | .compared op left right => .compared op left.toExpression right.toExpression
  | .includes haystack needle => .membership haystack.toExpression needle.toExpression
  | .atom a => a.toExpression
termination_by structural f => f

/-- The expressions of some trees. -/
def toExpressions : List Formula → List Expression
  | [] => []
  | f :: fs => f.toExpression :: toExpressions fs
termination_by structural fs => fs

end

/-- The texts of operands, one by one. -/
theorem operandChars_eq (bound : Nat) (fs : List Formula) :
    operandChars bound fs = fs.map fun f => enclosed bound f.level f.chars := by
  induction fs with
  | nil => rfl
  | cons f fs ih => rw [operandChars, ih, List.map_cons]

/-- The values of operands, one by one. -/
theorem operandValues_eq (root : Entries) (fs : List Formula) :
    operandValues root fs = fs.map (operandValue root) := by
  induction fs with
  | nil => rfl
  | cons f fs ih => rw [operandValues, ih, List.map_cons]

/-- The expressions of operands, one by one. -/
theorem toExpressions_eq (fs : List Formula) : toExpressions fs = fs.map toExpression := by
  induction fs with
  | nil => rfl
  | cons f fs ih => rw [toExpressions, ih, List.map_cons]

/-! ## the expression of a tree means what the tree does -/

section Meaning

open Expression

variable (root : Entries)

/-- A result that is no reference leading nowhere. -/
def Settled {α : Type} (result : Except ExpressionError α) : Prop :=
  ∀ name, result ≠ .error (.unknownReference name)

/-- An operand that is settled keeps its result. -/
theorem asOperand_of_settled {result : Except ExpressionError Value} (h : Settled result) :
    asOperand result = result := by
  cases result with
  | ok v => rfl
  | error e =>
      cases e with
      | unknownReference name => exact absurd rfl (h name)
      | empty | missingOperand | notComparable | unsupported => rfl

/-- The result of an operand is settled: a path that leads nowhere counts as null there. -/
theorem settled_asOperand (result : Except ExpressionError Value) :
    Settled (asOperand result) := by
  intro name
  cases result with
  | ok v => simp [asOperand]
  | error e => cases e <;> simp [asOperand]

/-- What is made of a settled result is settled. -/
theorem Settled.map {α β : Type} {result : Except ExpressionError α} (h : Settled result)
    (f : α → β) : Settled (result.map f) := by
  intro name
  cases result with
  | ok a => simp [Except.map]
  | error e =>
      have hne := h name
      simpa [Except.map] using hne

/-- So is what is made of it with further results. -/
theorem Settled.bind {α β : Type} {result : Except ExpressionError α} (h : Settled result)
    {f : α → Except ExpressionError β} (hf : ∀ a, Settled (f a)) : Settled (result >>= f) := by
  cases result with
  | ok a => exact hf a
  | error e =>
      intro name herror
      cases herror
      exact h name rfl

/-- A comparison of two values is settled. -/
theorem settled_test (op : Comparison) (l r : Value) : Settled (op.test l r) := by
  intro name
  cases op with
  | equal | notEqual => simp [Comparison.test]
  | atLeast | atMost | greater | less =>
      simp only [Comparison.test, Comparison.test.order]
      split <;> simp

/-- Whether any part is true is told by the values of the parts as operands. -/
theorem evaluateAny_eq_anyTrue (es : List Expression) :
    evaluateAny root es = anyTrue (es.map fun e => asOperand (e.evaluate root)) := by
  induction es with
  | nil => rfl
  | cons e es ih =>
      simp only [List.map_cons, evaluateAny, ih, anyTrue]
      cases asOperand (e.evaluate root) with
      | error err => rfl
      | ok v => rfl

/-- A conjunction is true if all its operands are, from the first to the last. -/
theorem evaluateAll_eq_allTrue (es : List Expression) :
    evaluateAll root es = allTrue (es.map fun e => asOperand (e.evaluate root)) := by
  induction es with
  | nil => rfl
  | cons e es ih =>
      simp only [List.map_cons, evaluateAll, ih, allTrue]
      cases asOperand (e.evaluate root) with
      | error err => rfl
      | ok v => cases hv : v.isTruthy <;> simp [hv, bind, Except.bind, pure, Except.pure]

/-- Whether any part is true is told by the operands of the trees. -/
theorem evaluateAny_eq {fs : List Formula}
    (h : ∀ f ∈ fs, asOperand (f.toExpression.evaluate root) = f.operandValue root) :
    evaluateAny root (fs.map toExpression) = anyTrue (fs.map (operandValue root)) := by
  rw [evaluateAny_eq_anyTrue, List.map_map]
  exact congrArg anyTrue (List.map_congr_left h)

/-- The conjunction of trees whose operands evaluate to their values. -/
theorem evaluateAll_eq {fs : List Formula}
    (h : ∀ f ∈ fs, asOperand (f.toExpression.evaluate root) = f.operandValue root) :
    evaluateAll root (fs.map toExpression) = allTrue (fs.map (operandValue root)) := by
  rw [evaluateAll_eq_allTrue, List.map_map]
  exact congrArg allTrue (List.map_congr_left h)

/-- An alternative of settled results is settled. -/
theorem settled_anyTrue {results : List (Except ExpressionError Value)}
    (h : ∀ result ∈ results, Settled result) : Settled (anyTrue results) := by
  induction results with
  | nil => simp [Settled, anyTrue, pure, Except.pure]
  | cons result results ih =>
      have hfirst := h result (List.mem_cons_self ..)
      have hrest := ih fun r hr => h r (List.mem_cons_of_mem _ hr)
      cases result with
      | error e => simpa [Settled, anyTrue, bind, Except.bind] using hfirst
      | ok v =>
          cases hv : v.isTruthy with
          | true => simp [Settled, anyTrue, hv, bind, Except.bind, pure, Except.pure]
          | false => simpa [anyTrue, hv, bind, Except.bind, pure, Except.pure] using hrest

/-- A conjunction of settled results is settled. -/
theorem settled_allTrue {results : List (Except ExpressionError Value)}
    (h : ∀ result ∈ results, Settled result) : Settled (allTrue results) := by
  induction results with
  | nil => simp [Settled, allTrue, pure, Except.pure]
  | cons result results ih =>
      have hfirst := h result (List.mem_cons_self ..)
      have hrest := ih fun r hr => h r (List.mem_cons_of_mem _ hr)
      cases result with
      | error e => simpa [Settled, allTrue, bind, Except.bind] using hfirst
      | ok v =>
          cases hv : v.isTruthy with
          | false => simp [Settled, allTrue, hv, bind, Except.bind, pure, Except.pure]
          | true => simpa [allTrue, hv, bind, Except.bind, pure, Except.pure] using hrest

/-- What the expression of a tree evaluates to, as an operand and on its own. -/
structure Agrees (f : Formula) : Prop where
  operand : asOperand (f.toExpression.evaluate root) = f.operandValue root
  whole : f.toExpression.evaluate root = f.meaning root

/-- The value of an operand is settled. -/
theorem Agrees.settled {f : Formula} (h : f.Agrees root) : Settled (f.operandValue root) := by
  rw [← h.operand]
  exact settled_asOperand _

/-- So are the values of all operands. -/
theorem settled_operandValues {fs : List Formula} (h : ∀ f ∈ fs, f.Agrees root) :
    ∀ result ∈ fs.map (operandValue root), Settled result := by
  intro result hresult
  obtain ⟨f, hf, rfl⟩ := List.mem_map.1 hresult
  exact (h f hf).settled

/-- An operator gives the same on its own and as an operand. -/
theorem agrees_of_settled {f : Formula} (hmeaning : f.meaning root = f.operandValue root)
    (hsettled : Settled (f.operandValue root))
    (h : f.toExpression.evaluate root = f.operandValue root) : f.Agrees root :=
  ⟨by rw [h, asOperand_of_settled hsettled], by rw [h, hmeaning]⟩

/-- The expression of a tree agrees with the tree. -/
theorem agrees (f : Formula) : f.Agrees root := by
  induction f using Formula.induction with
  | anyOf first second more hfirst hsecond hmore =>
      have hall : ∀ f ∈ first :: second :: more, f.Agrees root := by
        simpa using ⟨hfirst, hsecond, hmore⟩
      have hany := evaluateAny_eq root fun f hf => (hall f hf).operand
      -- operands are settled, so the whole is no reference that leads nowhere either
      have hsettled := settled_anyTrue (settled_operandValues root hall)
      simp only [List.map_cons] at hany hsettled
      refine agrees_of_settled root rfl ?_ ?_
      · simp only [operandValue, operandValues_eq]
        exact hsettled.map _
      · simp only [toExpression, toExpressions_eq, evaluate, hany, operandValue, operandValues_eq]
        rfl
  | allOf first second more hfirst hsecond hmore =>
      have hall : ∀ f ∈ first :: second :: more, f.Agrees root := by
        simpa using ⟨hfirst, hsecond, hmore⟩
      have hevery := evaluateAll_eq root fun f hf => (hall f hf).operand
      have hsettled := settled_allTrue (settled_operandValues root hall)
      simp only [List.map_cons] at hevery hsettled
      refine agrees_of_settled root rfl ?_ ?_
      · simp only [operandValue, operandValues_eq]
        exact hsettled.map _
      · simp only [toExpression, toExpressions_eq, evaluate, hevery, operandValue,
          operandValues_eq]
        rfl
  | negated operand ih =>
      refine agrees_of_settled root rfl ?_ ?_
      · simp only [operandValue]
        exact ih.settled.map _
      · simp only [toExpression, evaluate, ih.operand, operandValue]
        rfl
  | compared op left right hleft hright =>
      refine agrees_of_settled root rfl ?_ ?_
      · simp only [operandValue]
        exact hleft.settled.bind fun l => hright.settled.bind fun r => (settled_test op l r).map _
      · simp only [toExpression, evaluate, hleft.operand, hright.operand, operandValue]
        cases left.operandValue root with
        | error e => rfl
        | ok l => cases right.operandValue root <;> rfl
  | includes haystack needle hhaystack hneedle =>
      refine agrees_of_settled root rfl ?_ ?_
      · simp only [operandValue]
        exact hhaystack.settled.bind fun h => hneedle.settled.map _
      · simp only [toExpression, evaluate, hhaystack.operand, hneedle.operand, operandValue]
        cases haystack.operandValue root <;> rfl
  | atom a =>
      cases a with
      | null | bool | integer | text => exact ⟨rfl, rfl⟩
      | path r =>
          constructor
          · simp only [toExpression, Atom.toExpression, evaluate, operandValue, Atom.value?]
            cases dereference root (String.ofList r.chars) <;> rfl
          · simp only [toExpression, Atom.toExpression, evaluate, meaning, Atom.value?]
            rfl

/-- The expression of a tree evaluates to the meaning of the tree. -/
theorem evaluate_toExpression (f : Formula) : f.toExpression.evaluate root = f.meaning root :=
  (f.agrees root).whole

end Meaning

end Formula

end Runbook

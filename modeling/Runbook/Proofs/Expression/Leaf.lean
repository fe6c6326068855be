import Runbook.Proofs.Expression.Formula
import Runbook.Proofs.Expression.Reading
import Runbook.Proofs.Path

/-!
# Runbook.Proofs.Expression.Leaf

The texts of trees as scans see them, and the leaves. Which characters stand at the top level of the
text of a tree is known from the level of its operator (`Written`). A leaf shows no operator at all
(`Atom.scanned`), not even where a path has a member called `includes` (`PassesMark`), and its text
is read as the leaf (`Atom.atom_chars`).
-/

namespace Runbook

/-! ## what stands at the top level -/

/-- The characters that operators between operands are made of. -/
def operatorChars : List Char := ['|', '&', '!', '=', '<', '>']

/-- The characters that stand inside quotes and brackets only, in the text of a tree of some
level. -/
def loudAt (level : Nat) : List Char := operatorChars.take (if level ≤ 3 then min level 2 else 6)

/-- The tighter the operator of a tree binds, the fewer of its characters stand at the top level. -/
theorem loudAt_subset {m n : Nat} (h : m ≤ n) : loudAt m ⊆ loudAt n := by
  apply List.take_subset_take_left
  split <;> split <;> omega

/-- The text of a tree of some level, as scans see it. -/
structure Written (level : Nat) (cs : List Char) : Prop where
  solid : Text.Solid cs
  nested : Scan.Nested (loudAt level) cs
  starts : ∀ c, cs.head? = some c → c ≠ '=' ∧ (3 ≤ level → c ≠ '!')

/-- A text that is seen like one of a higher level is seen like one of a lower level too. -/
theorem Written.mono {m n : Nat} {cs : List Char} (h : Written n cs) (hmn : m ≤ n) :
    Written m cs :=
  ⟨h.solid, h.nested.mono (loudAt_subset hmn),
    fun c hc => ⟨(h.starts c hc).1, fun hm => (h.starts c hc).2 (by omega)⟩⟩

/-- A text in brackets has no blank at its ends. -/
theorem solid_brackets (cs : List Char) : Text.Solid ('(' :: (cs ++ [')'])) :=
  Text.solid_enclosed (by decide) (by decide) cs

/-- A text in brackets can stand for an operand of any operator. -/
theorem Written.brackets {level : Nat} {cs : List Char} (h : Written level cs) (any : Nat) :
    Written any ('(' :: (cs ++ [')'])) := by
  refine ⟨solid_brackets cs, Scan.Nested.enclosed (h.nested.mono (List.nil_subset _)), ?_⟩
  intro c hc
  cases hc
  exact ⟨by decide, fun _ => by decide⟩

/-- An operand in the text of an operator is seen like a tree that binds more tightly than the
operator: in brackets it shows nothing at all. -/
theorem Written.enclosed {level : Nat} {cs : List Char} (h : Written level cs) (bound : Nat) :
    Written (bound + 1) (Formula.enclosed bound level cs) := by
  unfold Formula.enclosed
  split
  · exact h.brackets _
  · exact h.mono (by omega)

/-- Brackets around the text of a tree do not enclose what stands behind the text. -/
theorem Written.unwrapped?_append {level : Nat} {cs more : List Char} (h : Written level cs)
    (hmore : more ≠ []) : Scan.unwrapped? (cs ++ more) = none :=
  Scan.unwrapped?_append h.nested h.solid.ne_nil hmore

/-! ## what is not found in a text -/

namespace Written

open Expression

variable {level : Nat} {cs : List Char} (h : Written level cs)
include h

/-- No alternative is found in the text of a tree that binds more tightly. -/
theorem cutTop?_or (hlevel : 1 ≤ level) : Scan.cutTop? ['|', '|'] Scan.top cs = none := by
  have hor : '|' ∈ loudAt 1 := by decide
  exact (h.mono hlevel).nested.cutTop?_eq_none hor ['|']

/-- No conjunction is found in the text of a tree that binds more tightly. -/
theorem cutTop?_and (hlevel : 2 ≤ level) : Scan.cutTop? ['&', '&'] Scan.top cs = none := by
  have hand : '&' ∈ loudAt 2 := by decide
  exact (h.mono hlevel).nested.cutTop?_eq_none hand ['&']

/-- A tree that binds more tightly than a negation does not start with one. -/
theorem negations_eq (hlevel : 3 ≤ level) (steps : Nat) : negations steps cs = (0, cs) :=
  negations_eq_zero (fun c hc => (h.starts c hc).2 hlevel) steps

/-- No comparison is found in the text of a tree that binds more tightly. -/
theorem comparison?_eq (hlevel : 4 ≤ level) : comparison? cs comparisons = none :=
  comparison?_eq_none (h.mono hlevel).nested (by decide)

end Written

/-! ## leaves -/

/-- What a name character is, as scans see it: no blank, no delimiter, no point, and no part of an
operator. -/
theorem isNameChar_iff {c : Char} : isNameChar c = true ↔
    Text.isBlank c = false ∧ Scan.delimits c = false ∧ c ≠ '.' ∧ c ∉ operatorChars := by
  simp [isNameChar, operatorChars, and_assoc]

/-- Digits are name characters. -/
theorem isNameChar_of_isDigit {c : Char} (h : c.isDigit = true) : isNameChar c = true := by
  have hrange : ∀ n < 58, 48 ≤ n → isNameChar (Char.ofNat n) = true := by decide
  have hc : 48 ≤ c.toNat ∧ c.toNat ≤ 57 := by
    simpa [Char.isDigit, UInt32.le_iff_toNat_le] using h
  rw [← Char.ofNat_toNat c]
  exact hrange _ (by omega) hc.1

/-- A text of name characters is nested, whatever operator is looked for. -/
theorem nested_of_isNameChar {cs : List Char} (h : ∀ c ∈ cs, isNameChar c = true) :
    Scan.Nested ('.' :: operatorChars) cs := by
  apply Scan.Nested.of_forall
  intro c hc
  obtain ⟨-, hplain, hpoint, hoperator⟩ := isNameChar_iff.1 (h c hc)
  exact ⟨hplain, by simp [hpoint, hoperator]⟩

/-- So are all characters of a written integer, the minus sign included. -/
theorem isNameChar_of_mem_integerText {i : Int} {c : Char} (hc : c ∈ Text.integerText i) :
    isNameChar c = true := by
  unfold Text.integerText at hc
  split at hc
  · rcases List.mem_cons.1 hc with rfl | hc
    · decide
    · exact isNameChar_of_isDigit (Reading.isDigit_of_mem_digits hc)
  · exact isNameChar_of_isDigit (Reading.isDigit_of_mem_digits hc)

/-- A quoted text is nested, whatever operator is looked for. -/
theorem nested_quotes {q : Char} (hq : Path.isQuote q = true) {cs : List Char} (hcs : q ∉ cs)
    (loud : List Char) : Scan.Nested loud (q :: (cs ++ [q])) :=
  Scan.Nested.quote hq hcs Scan.Nested.nil

/-- A key in brackets holds no quote, so the quote behind it closes the one in front. -/
theorem BracketKey.notMem (key : BracketKey) {q : Char} (hq : Path.isQuote q = true) :
    q ∉ key.chars := by
  intro hmem
  have hplain := (key.plain q hmem).1
  rw [hq] at hplain
  contradiction

/-- Whatever stands in square brackets is out of the sight of scans. -/
theorem nested_squareBrackets {cs : List Char} (hcs : Scan.Nested [] cs) (loud : List Char) :
    Scan.Nested loud ('[' :: (cs ++ [']'])) :=
  Scan.Nested.bracket rfl hcs Scan.Nested.nil

namespace Spelling

/-- An index in brackets shows nothing at the top level. -/
theorem nested_item (n : Nat) (loud : List Char) : Scan.Nested loud (item n).chars := by
  have hdigits : Scan.Nested ('.' :: operatorChars) (Text.digits n) :=
    nested_of_isNameChar fun c hc => isNameChar_of_isDigit (Reading.isDigit_of_mem_digits hc)
  exact nested_squareBrackets (hdigits.mono (List.nil_subset _)) loud

/-- Neither does a key in brackets, whatever it holds. -/
theorem nested_entry (single : Bool) (key : BracketKey) (loud : List Char) :
    Scan.Nested loud (entry single key).chars := by
  cases single with
  | true => exact nested_squareBrackets (nested_quotes rfl (key.notMem rfl) []) loud
  | false => exact nested_squareBrackets (nested_quotes rfl (key.notMem rfl) []) loud

/-- A move shows no character of an operator at the top level. -/
theorem nested (s : Spelling) : Scan.Nested operatorChars s.chars := by
  cases s with
  | member name =>
      have hname := nested_of_isNameChar name.isNameChar
      exact Scan.Nested.plain (by decide) (by decide) (hname.mono (List.subset_cons_self ..))
  | item n => exact nested_item n _
  | entry single key => exact nested_entry single key _

/-- A move is written without blanks. -/
theorem not_isBlank (s : Spelling) {c : Char} (hc : c ∈ s.chars) : Text.isBlank c = false := by
  cases s with
  | member name =>
      rcases List.mem_cons.1 hc with rfl | hc
      · decide
      · exact (isNameChar_iff.1 (name.isNameChar c hc)).1
  | item n =>
      simp only [chars, List.mem_cons, List.mem_append, List.not_mem_nil, or_false] at hc
      rcases hc with rfl | hc | rfl
      · decide
      · exact (isNameChar_iff.1 (isNameChar_of_isDigit (Reading.isDigit_of_mem_digits hc))).1
      · decide
  | entry single key =>
      cases single <;>
        simp only [chars, List.mem_cons, List.mem_append, List.not_mem_nil, or_false, false_or,
          List.cons_append, List.append_assoc] at hc
      all_goals
        rcases hc with rfl | rfl | hc | rfl | rfl
        · decide
        · decide
        · exact (key.plain c hc).2
        · decide
        · decide

end Spelling

/-! ## membership marks

A path can have a member called `includes`, but no bracket opens behind its name.
-/

/-- What may stand behind a path: no bracket and nothing that goes on with its last name. -/
def EndsName (rest : List Char) : Prop :=
  ∀ c, rest.head? = some c → c ≠ '(' ∧ isNameChar c = false

/-- A path may stand at the end of a text. -/
theorem endsName_nil : EndsName [] := fun c hc => by simp at hc

/-- Nothing that ends a name starts with a name character. -/
theorem EndsName.takeWhile_eq {rest : List Char} (h : EndsName rest) :
    rest.takeWhile isNameChar = [] := by
  cases rest with
  | nil => rfl
  | cons c rest => simp [(h c rfl).2]

/-- The name in the mark of a membership test. -/
def includesName : List Char := ['i', 'n', 'c', 'l', 'u', 'd', 'e', 's']

theorem includesMark_eq : Expression.includesMark = '.' :: (includesName ++ ['(']) := rfl

/-- The mark of a membership test does not start at the point in front of a name. -/
theorem dropLead?_includesMark {name rest : List Char} (hname : ∀ c ∈ name, isNameChar c = true)
    (hrest : EndsName rest) :
    Text.dropLead? Expression.includesMark ('.' :: (name ++ rest)) = none := by
  cases hlead : Text.dropLead? Expression.includesMark ('.' :: (name ++ rest)) with
  | none => rfl
  | some tail =>
      rw [includesMark_eq, Text.dropLead?_eq_some_iff] at hlead
      have heq : name ++ rest = includesName ++ '(' :: tail := by simpa using hlead
      have hleft : (name ++ rest).takeWhile isNameChar = name := by
        rw [List.takeWhile_append_of_pos hname, hrest.takeWhile_eq, List.append_nil]
      have hright : (includesName ++ '(' :: tail).takeWhile isNameChar = includesName := by
        have hall : ∀ c ∈ includesName, isNameChar c = true := by decide
        have hbracket : isNameChar '(' = false := by decide
        rw [List.takeWhile_append_of_pos hall]
        simp [hbracket]
      have hnames : name = includesName := by rw [← hleft, heq, hright]
      rw [hnames, List.append_cancel_left_eq] at heq
      exact absurd rfl (hrest '(' (by rw [heq]; rfl)).1

/-- The scan for a membership test passes over a text, if nothing goes on with the text. -/
def PassesMark (cs : List Char) : Prop :=
  ∀ rest, EndsName rest → Scan.Passes Expression.includesMark Scan.top cs rest

/-- A text without a point at the top level hides no mark of a membership test. -/
theorem passesMark_of_nested {loud cs : List Char} (h : Scan.Nested loud cs) (hpoint : '.' ∈ loud) :
    PassesMark cs := by
  intro rest _
  rw [includesMark_eq]
  exact h.passes hpoint _ rest

/-- Neither does a member, even if it has the name in the mark: the bracket is missing behind it. -/
theorem passesMark_member {name : List Char} (hname : ∀ c ∈ name, isNameChar c = true) :
    PassesMark ('.' :: name) := by
  intro rest hrest
  have hnested := nested_of_isNameChar hname
  refine Scan.Passes.cons ?_ ?_
  · exact Scan.operator?_eq_none (dropLead?_includesMark hname hrest) _
  · have hnext : Scan.next Scan.top '.' = Scan.top := Scan.next_plain (by decide) 0
    rw [hnext]
    exact passesMark_of_nested hnested (List.mem_cons_self ..) rest hrest

/-- Nor a name with such a text behind it. -/
theorem passesMark_append {name tail : List Char} (hname : ∀ c ∈ name, isNameChar c = true)
    (htail : PassesMark tail) : PassesMark (name ++ tail) := by
  intro rest hrest
  have hnested := nested_of_isNameChar hname
  refine Scan.Passes.append ?_ ?_
  · rw [includesMark_eq]
    exact hnested.passes (List.mem_cons_self ..) _ _
  · rw [hnested.run_top]
    exact htail rest hrest

section Moves

variable {α : Type} {f : α → List Char} (hends : ∀ x rest, EndsName (f x ++ rest))
include hends

/-- If each of some moves may stand behind a path, so may all of them in a row. -/
theorem endsName_flatMap {rest : List Char} (hrest : EndsName rest) (items : List α) :
    EndsName (items.flatMap f ++ rest) := by
  cases items with
  | nil => exact hrest
  | cons x items =>
      rw [List.flatMap_cons, List.append_assoc]
      exact hends x _

/-- If none of some moves hides the mark, all of them in a row do not either. -/
theorem passesMark_flatMap {items : List α}
    (h : ∀ x ∈ items, Scan.Nested operatorChars (f x) ∧ PassesMark (f x)) :
    PassesMark (items.flatMap f) := by
  induction items with
  | nil => exact fun rest _ => Scan.Passes.nil rest
  | cons x items ih =>
      obtain ⟨⟨hnested, hmark⟩, hitems⟩ := List.forall_mem_cons.mp h
      intro rest hrest
      rw [List.flatMap_cons]
      refine Scan.Passes.append (hmark _ (endsName_flatMap hends hrest items)) ?_
      rw [hnested.run_top]
      exact ih hitems rest hrest

end Moves

/-- A move may stand behind a path. -/
theorem Spelling.endsName (s : Spelling) (rest : List Char) : EndsName (s.chars ++ rest) := by
  intro c hc
  cases s with
  | member name | item n =>
      cases hc
      exact ⟨by decide, by decide⟩
  | entry single key =>
      cases single
      all_goals
        cases hc
        exact ⟨by decide, by decide⟩

/-- A move hides no mark of a membership test. -/
theorem Spelling.passesMark (s : Spelling) : PassesMark s.chars := by
  cases s with
  | member name => exact passesMark_member name.isNameChar
  | item n => exact passesMark_of_nested (nested_item n ['.']) (by decide)
  | entry single key => exact passesMark_of_nested (nested_entry single key ['.']) (by decide)

/-! ## texts that start with an identifier -/

namespace Identifier

variable (name : Identifier)

/-- An identifier starts with a name character that does not start a number. -/
theorem exists_cons : ∃ c cs, name.chars = c :: cs ∧ isNameChar c = true ∧ c.isDigit = false ∧
    c ≠ '-' := by
  cases hchars : name.chars with
  | nil => exact absurd hchars name.ne_nil
  | cons c cs =>
      obtain ⟨hdigit, hminus⟩ := name.starts c (by rw [hchars]; rfl)
      exact ⟨c, cs, rfl, name.isNameChar c (by simp [hchars]), hdigit, hminus⟩

/-- An identifier does not start with a bracket. -/
theorem unwrapped?_append (tail : List Char) : Scan.unwrapped? (name.chars ++ tail) = none := by
  obtain ⟨c, cs, hcs, hc, -⟩ := name.exists_cons
  have hbracket : c ≠ '(' := by
    rintro rfl
    contradiction
  simp [Scan.unwrapped?, hcs, hbracket]

variable {tail : List Char} (htail : EndsName tail)
include htail

/-- An identifier with moves behind it is none of the words for values. -/
theorem append_ne_word {word : List Char} (hword : ∀ c ∈ word, isNameChar c = true)
    (hne : name.chars ≠ word) : name.chars ++ tail ≠ word := by
  cases tail with
  | nil => simpa using hne
  | cons c cs =>
      rintro rfl
      have hc := (htail c rfl).2
      rw [hword c (by simp)] at hc
      contradiction

/-- A text that starts with an identifier is no literal. -/
theorem literal?_append : Expression.literal? (name.chars ++ tail) = none := by
  obtain ⟨c, cs, hcs, hc, hdigit, hminus⟩ := name.exists_cons
  have hne : ∀ d, isNameChar d = false → c ≠ d := by
    rintro d hd rfl
    rw [hd] at hc
    contradiction
  have hnull := name.append_ne_word htail (by decide) name.ne_word.1
  have htrue := name.append_ne_word htail (by decide) name.ne_word.2.1
  have hfalse := name.append_ne_word htail (by decide) name.ne_word.2.2
  have hsquare := hne '[' (by decide)
  have hbrace := hne '{' (by decide)
  have hquote := hne '"' (by decide)
  have hlooks : Expression.looksLikeData (name.chars ++ tail) = false := by
    rw [hcs, List.cons_append] at hnull htrue hfalse ⊢
    simp only [Expression.looksLikeData, hnull, htrue, hfalse, hsquare, hbrace, hquote, hminus,
      hdigit, decide_false, Bool.or_self]
  have hunquoted : Path.unquoted? '\'' (name.chars ++ tail) = none := by
    rw [hcs, List.cons_append, Path.unquoted?_ne (hne '\'' (by decide))]
  rw [Expression.literal?, hunquoted, hlooks]
  rfl

end Identifier

/-! ## the text of a leaf -/

/-- A text that shows no operator character is seen like a tree of any level. -/
theorem written_of_nested {cs : List Char} (hsolid : Text.Solid cs)
    (hcs : Scan.Nested operatorChars cs) (level : Nat) : Written level cs := by
  refine ⟨hsolid, hcs.mono (List.take_subset _ _), ?_⟩
  intro c hc
  constructor
  · rintro rfl
    exact hcs.head_notMem hc (by decide) (by decide)
  · rintro - rfl
    exact hcs.head_notMem hc (by decide) (by decide)

/-- What shows no operator and is not in brackets is read as a leaf. -/
theorem Expression.readSteps_of_nested {cs : List Char} (hsolid : Text.Solid cs)
    (hnested : Scan.Nested operatorChars cs) (hmark : PassesMark cs)
    (hopen : Scan.unwrapped? cs = none) (steps : Nat) : readSteps (steps + 1) cs = atom cs := by
  have hwritten := written_of_nested hsolid hnested 5
  have hcut : Scan.cutTop? includesMark Scan.top cs = none := by
    have hpasses := hmark [] endsName_nil
    simpa [Scan.Passes, Scan.cutTop?] using hpasses
  exact readSteps_atom hsolid steps hopen (hwritten.cutTop?_or (by decide))
    (hwritten.cutTop?_and (by decide)) (hwritten.negations_eq (by decide) _)
    (hwritten.comparison?_eq (by decide)) hcut

namespace Reference

variable (r : Reference)

/-- A path shows no operator character at the top level. -/
theorem nested : Scan.Nested operatorChars r.chars := by
  have hhead := nested_of_isNameChar r.head.isNameChar
  exact (hhead.mono (List.subset_cons_self ..)).append
    (Scan.Nested.flatMap fun s _ => s.nested)

/-- A path hides no mark of a membership test. -/
theorem passesMark : PassesMark r.chars :=
  passesMark_append r.head.isNameChar
    (passesMark_flatMap Spelling.endsName fun s _ => ⟨s.nested, s.passesMark⟩)

/-- A path is written without blanks. -/
theorem not_isBlank {c : Char} (hc : c ∈ r.chars) : Text.isBlank c = false := by
  rcases List.mem_append.1 hc with hc | hc
  · exact (isNameChar_iff.1 (r.head.isNameChar c hc)).1
  · obtain ⟨s, -, hc⟩ := List.mem_flatMap.1 hc
    exact s.not_isBlank hc

/-- A path is not read as a literal. -/
theorem literal?_eq_none : Expression.literal? r.chars = none := by
  have hends := endsName_flatMap Spelling.endsName endsName_nil r.moves
  rw [List.append_nil] at hends
  exact r.head.literal?_append hends

end Reference

namespace Atom

open Expression

variable (a : Atom)

/-- The leaves that are written with name characters only. -/
theorem nested_word {cs : List Char} (h : ∀ c ∈ cs, isNameChar c = true) (hne : cs ≠ []) :
    Text.Solid cs ∧ Scan.Nested operatorChars cs ∧ PassesMark cs := by
  have hnested := nested_of_isNameChar h
  exact ⟨Text.solid_of_forall hne fun c hc => (isNameChar_iff.1 (h c hc)).1,
    hnested.mono (List.subset_cons_self ..), passesMark_of_nested hnested (List.mem_cons_self ..)⟩

/-- What a scan finds in a leaf: no blank at its ends, no operator character at the top level, and
no mark of a membership test. -/
theorem scanned : Text.Solid a.chars ∧ Scan.Nested operatorChars a.chars ∧ PassesMark a.chars := by
  cases a with
  | null => exact nested_word (by decide) (by decide)
  | bool b => cases b <;> exact nested_word (by decide) (by decide)
  | integer i =>
      obtain ⟨c, cs, hcs, -⟩ := Reading.integerText_cons i.value
      exact nested_word (fun c hc => isNameChar_of_mem_integerText hc) (by simp [chars, hcs])
  | text t =>
      have hnested := fun loud => nested_quotes (q := '\'') rfl t.plain loud
      refine ⟨Text.solid_enclosed (by decide) (by decide) t.chars, hnested _, ?_⟩
      exact passesMark_of_nested (hnested ['.']) (by decide)
  | path r =>
      have hne : r.chars ≠ [] := by simp [Reference.chars, r.head.ne_nil]
      exact ⟨Text.solid_of_forall hne fun c hc => r.not_isBlank hc, r.nested, r.passesMark⟩

/-- A leaf is seen like a tree of any level. -/
theorem written (level : Nat) : Written level a.chars :=
  written_of_nested a.scanned.1 a.scanned.2.1 level

/-- No leaf starts with a bracket. -/
theorem unwrapped?_eq_none : Scan.unwrapped? a.chars = none := by
  have hbracket : ∀ c cs, a.chars = c :: cs → c ≠ '(' → Scan.unwrapped? a.chars = none := by
    intro c cs hcs hc
    simp [Scan.unwrapped?, hcs, hc]
  have hword : ∀ c, isNameChar c = true → c ≠ '(' := by
    rintro c hc rfl
    contradiction
  cases a with
  | null => rfl
  | bool b => cases b <;> rfl
  | integer i =>
      obtain ⟨c, cs, hcs, -⟩ := Reading.integerText_cons i.value
      have hname : isNameChar c = true :=
        isNameChar_of_mem_integerText (i := i.value) (by simp [hcs])
      exact hbracket c cs hcs (hword c hname)
  | text t => exact hbracket '\'' _ rfl (by decide)
  | path r => exact r.head.unwrapped?_append _

/-- A data text without single quotes at its front is read as its value. -/
theorem atom_of_read {c : Char} {cs : List Char} {v : Value} (hquote : c ≠ '\'')
    (hlooks : looksLikeData (c :: cs) = true)
    (hread : Value.read (String.ofList (c :: cs)) = .ok v) : atom (c :: cs) = .literal v := by
  have hliteral : literal? (c :: cs) = some v := by
    simp only [literal?, Path.unquoted?_ne hquote, hlooks, if_true, hread]
    rfl
  simp [atom, hliteral]

/-- The text of a leaf is read as the leaf. -/
theorem atom_chars : atom a.chars = a.toExpression := by
  cases a with
  | null => exact atom_of_read (by decide) (by decide) rfl
  | bool b => cases b <;> exact atom_of_read (by decide) (by decide) rfl
  | integer i =>
      obtain ⟨c, cs, hcs, hc⟩ := Reading.integerText_cons i.value
      have hread := Reading.read_integerText i.lower i.upper
      have hquote : c ≠ '\'' := by
        rintro rfl
        rcases hc with hc | hc <;> contradiction
      simp only [chars]
      rw [hcs] at hread ⊢
      refine atom_of_read hquote ?_ hread
      rcases hc with hc | hc <;> simp [looksLikeData, hc]
  | text t =>
      have hliteral : literal? ('\'' :: (t.chars ++ ['\''])) =
          some (.string (String.ofList t.chars)) := by
        simp [literal?, Path.unquoted?_text, t.plain]
      simp [atom, chars, hliteral, toExpression]
  | path r =>
      have hblank : r.chars.any Text.isBlank = false := by
        simpa using fun c hc => r.not_isBlank hc
      simp [atom, chars, r.literal?_eq_none, hblank, toExpression]

/-- A leaf is read as what it stands for, in one step. -/
theorem readSteps_chars (steps : Nat) :
    readSteps (steps + 1) a.chars = a.toExpression := by
  obtain ⟨hsolid, hnested, hmark⟩ := a.scanned
  rw [readSteps_of_nested hsolid hnested hmark a.unwrapped?_eq_none, a.atom_chars]

end Atom

end Runbook

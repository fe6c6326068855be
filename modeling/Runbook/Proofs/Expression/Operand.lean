import Runbook.Proofs.Expression.Grammar
import Runbook.Proofs.Resolver

/-!
# Runbook.Proofs.Expression.Operand

Paths inside expressions. A quiet path is read as a leaf wherever it stands, so as an operand it has
the value that it leads to. There is one exception: an expression may not have blanks in its leaves,
not even in a quoted key. So a path that leads somewhere works on its own and in a comparison with a
constant exactly if its keys have no blanks, and else is no expression at all
(`PathText.standsFor_iff`).
-/

namespace Runbook

open Expression

/-! ## blanks in a path -/

/-- No key in brackets has a blank in it. -/
def PathText.Unspaced (path : PathText) : Prop :=
  ∀ key, Move.entry key ∈ path.moves → ∀ c ∈ key.chars, Text.isBlank c = false

/-- The quote of a key is no blank. -/
theorem QuotedKey.isBlank_quote (key : QuotedKey) : Text.isBlank key.quote = false := by
  rcases Path.isQuote_iff.mp key.isQuote with h | h <;> rw [h] <;> decide

/-- A quiet move has blanks in its quoted key or nowhere. -/
theorem Move.IsQuiet.isBlank_iff {move : Move} (h : move.IsQuiet) :
    (∀ c ∈ move.chars, Text.isBlank c = false) ↔
      ∀ key, move = .entry key → ∀ c ∈ key.chars, Text.isBlank c = false := by
  have hpoint : Text.isBlank '.' = false := by decide
  have hopen : Text.isBlank '[' = false := by decide
  have hclose : Text.isBlank ']' = false := by decide
  cases move with
  | member name =>
      have hname : ∀ c ∈ name.chars, Text.isBlank c = false := fun c hc =>
        (isNameChar_iff.mp (h name rfl c hc)).1
      simpa [chars, hpoint] using hname
  | item digits =>
      have hdigits : ∀ c ∈ digits.chars, Text.isBlank c = false := fun c hc =>
        Text.isBlank_of_isDigit (digits.isDigit c hc)
      simpa [chars, hopen, hclose, or_imp, forall_and] using hdigits
  | entry key =>
      simp [chars, QuotedKey.text, hopen, hclose, key.isBlank_quote, or_imp, forall_and]

/-- A quiet path has blanks in its quoted keys or nowhere. -/
theorem PathText.Quiet.isBlank_iff {path : PathText} (h : path.Quiet) :
    (∀ c ∈ path.chars, Text.isBlank c = false) ↔ path.Unspaced := by
  obtain ⟨identifier, hhead⟩ := h.head
  have hname : ∀ c ∈ path.head.chars, Text.isBlank c = false := by
    rw [hhead]
    exact fun c hc => (isNameChar_iff.mp (identifier.isNameChar c hc)).1
  have hmoves : (∀ move ∈ path.moves, ∀ c ∈ move.chars, Text.isBlank c = false) ↔
      path.Unspaced := by
    constructor
    · exact fun hall key hkey => (h.isQuiet hkey).isBlank_iff.mp (hall _ hkey) key rfl
    · rintro hkeys move hmove
      refine (h.isQuiet hmove).isBlank_iff.mpr ?_
      rintro key rfl
      exact hkeys key hmove
  rw [← hmoves, chars, List.forall_mem_append, and_iff_right hname, List.forall_mem_flatMap]

/-! ## constants -/

/-- An integer, or a text in single quotes, with the value that it stands for. -/
inductive IsConstant : List Char → Value → Prop
  /-- Digits, which the data format reads with their sign if they have one. -/
  | integer {sign : List Char} (hsign : sign = [] ∨ sign = ['-']) (digits : IndexDigits) {v : Value}
      (hread : Value.read (String.ofList (sign ++ digits.chars)) = .ok v) :
      IsConstant (sign ++ digits.chars) v
  /-- Everything but a single quote may stand in single quotes. -/
  | text (t : PlainText) : IsConstant (Atom.text t).chars (.string (String.ofList t.chars))

/-- A constant shows no operator and is read as its value. -/
theorem IsConstant.written_and_reads {cs : List Char} {v : Value} (h : IsConstant cs v)
    (level steps : Nat) : Written level cs ∧ readSteps (steps + 1) cs = .literal v := by
  cases h with
  | text t => exact ⟨(Atom.text t).written level, (Atom.text t).readSteps_chars steps⟩
  | @integer sign hsign digits v hread =>
      have hname : ∀ c ∈ sign ++ digits.chars, isNameChar c = true := by
        refine List.forall_mem_append.mpr
          ⟨?_, fun c hc => isNameChar_of_isDigit (digits.isDigit c hc)⟩
        rcases hsign with rfl | rfl <;> decide
      obtain ⟨c, cs, hcs, hc⟩ : ∃ c cs, sign ++ digits.chars = c :: cs ∧
          (c = '-' ∨ c.isDigit = true) := by
        rcases hsign with rfl | rfl
        · obtain ⟨d, ds, hds⟩ := List.exists_cons_of_ne_nil digits.ne_nil
          exact ⟨d, ds, hds, .inr (digits.isDigit d (by rw [hds]; exact List.mem_cons_self))⟩
        · exact ⟨'-', digits.chars, rfl, .inl rfl⟩
      rw [hcs] at hname hread ⊢
      obtain ⟨hsolid, hnested, hmark⟩ := Atom.nested_word hname (List.cons_ne_nil c cs)
      have hplain : ∀ d, isNameChar d = false → c ≠ d := by
        rintro d hd rfl
        rw [hname c List.mem_cons_self] at hd
        contradiction
      have hopen : Scan.unwrapped? (c :: cs) = none := by
        simp [Scan.unwrapped?, hplain '(' (by decide)]
      refine ⟨written_of_nested hsolid hnested level, ?_⟩
      rw [readSteps_of_nested hsolid hnested hmark hopen]
      refine Atom.atom_of_read (hplain '\'' (by decide)) ?_ hread
      rcases hc with hc | hc <;> simp [looksLikeData, hc]

/-! ## the value of an operand -/

/-- A path that leads to a value is good for the value on its own and in front of a constant that it
is compared with. -/
structure PathText.StandsFor (path : PathText) (root : Entries) (v : Value) : Prop where
  alone : evaluateText root path.chars = .ok v
  compared : ∀ cs w, IsConstant cs w →
    evaluateText root (path.chars ++ (" == ".toList ++ cs)) = .ok (.bool (v.looselyEqual w))

/-- The path is no expression, neither on its own nor in front of a constant. -/
structure PathText.Unsupported (path : PathText) (root : Entries) : Prop where
  alone : evaluateText root path.chars = .error (.unsupported (String.ofList path.chars))
  compared : ∀ cs w, IsConstant cs w → evaluateText root (path.chars ++ (" == ".toList ++ cs)) =
    .error (.unsupported (String.ofList path.chars))

namespace PathText.Quiet

variable {path : PathText} (hquiet : path.Quiet)
include hquiet

/-- A quiet path alone is read as a leaf. -/
theorem ofText_eq : ofText path.chars = atom path.chars := hquiet.readSteps_eq _

/-- A quiet path and a constant with an equals sign between them are read as a comparison of the
two. -/
theorem ofText_equation {cs : List Char} {w : Value} (h : IsConstant cs w) :
    ofText (path.chars ++ (" == ".toList ++ cs)) =
      .compared .equal (atom path.chars) (.literal w) := by
  have hpath := written_of_nested path.solid hquiet.nested 4
  have htext : path.chars ++ (" == ".toList ++ cs) =
      path.chars ++ ' ' :: (Comparison.equal.sign.toList ++ ' ' :: cs) := rfl
  obtain ⟨steps, hsteps⟩ : ∃ steps, (path.chars ++ (" == ".toList ++ cs)).length = steps + 1 :=
    ⟨path.chars.length + (3 + cs.length), by simp; omega⟩
  obtain ⟨hconstant, hread⟩ := h.written_and_reads 4 steps
  rw [ofText, hsteps, htext, readSteps_comparison hpath hconstant, hquiet.readSteps_eq, hread]

/-- An operand that has a value or no reading passes it on to the equation. -/
theorem evaluate_atom {root : Entries} {v : Value} (hvalue : Path.resolve root path.chars = some v)
    (hfree : Entries.get? (String.ofList path.chars) root = none) :
    (path.Unspaced → (atom path.chars).evaluate root = .ok v) ∧
      (¬path.Unspaced →
        (atom path.chars).evaluate root = .error (.unsupported (String.ofList path.chars))) := by
  have hatom : atom path.chars = if path.chars.any Text.isBlank then
      .malformed (.unsupported (String.ofList path.chars))
    else .reference (String.ofList path.chars) := by
    rw [atom, hquiet.literal?_eq_none]
  rw [← hquiet.isBlank_iff]
  constructor
  · intro hunspaced
    have hblank : path.chars.any Text.isBlank = false := by simpa using hunspaced
    have hfound : dereference root (String.ofList path.chars) = some v := by
      rw [dereference, hfree, String.toList_ofList, hvalue]
      rfl
    simp [hatom, hblank, evaluate, hfound]
  · intro hspaced
    have hblank : path.chars.any Text.isBlank = true := by simpa using hspaced
    simp [hatom, hblank, evaluate]

end PathText.Quiet

/-- **Which paths work inside expressions.** A quiet path that leads to a value, and is not itself
the name of a binding, stands for the value in an expression exactly if its keys have no blanks;
otherwise it makes the expression unsupported. -/
theorem PathText.standsFor_iff {path : PathText} (hquiet : path.Quiet) {root : Entries} {v : Value}
    (hvalue : Path.resolve root path.chars = some v)
    (hfree : Entries.get? (String.ofList path.chars) root = none) :
    (path.StandsFor root v ↔ path.Unspaced) ∧ (path.Unsupported root ↔ ¬path.Unspaced) := by
  obtain ⟨hworks, hfails⟩ := hquiet.evaluate_atom hvalue hfree
  have halone : evaluateText root path.chars = (atom path.chars).evaluate root := by
    rw [evaluateText, hquiet.ofText_eq]
  have hstands : path.Unspaced → path.StandsFor root v := by
    intro hunspaced
    have hatom := hworks hunspaced
    refine ⟨by rw [halone, hatom], fun cs w hconstant => ?_⟩
    rw [evaluateText, hquiet.ofText_equation hconstant]
    simp [evaluate, hatom, asOperand, Comparison.test, Except.map]
  have hunsupported : ¬path.Unspaced → path.Unsupported root := by
    intro hspaced
    have hatom := hfails hspaced
    refine ⟨by rw [halone, hatom], fun cs w hconstant => ?_⟩
    rw [evaluateText, hquiet.ofText_equation hconstant]
    simp [evaluate, hatom, asOperand]
  refine ⟨⟨fun h => ?_, hstands⟩, fun h hunspaced => ?_, hunsupported⟩
  · by_contra hspaced
    have hboth := (hunsupported hspaced).alone
    rw [h.alone] at hboth
    contradiction
  · have hboth := h.alone
    rw [(hstands hunspaced).alone] at hboth
    contradiction

/-! ### keys with operators and keys with blanks -/

/-- The name `user`. -/
def userName : Identifier := ⟨⟨"user".toList, by decide, by decide⟩, by simp, by decide⟩

/-- A mapping under the name, with an operator in one of its keys and a blank in the other. -/
def userRoot : Entries :=
  [("user", .object [("a||b", .string "Ada"), ("first name", .string "Ada")])]

/-- An operator in a quoted key does no harm, a blank in it does. -/
theorem standsFor_iff_samples :
    (entryOf userName "a||b" (by decide)).StandsFor userRoot (.string "Ada") ∧
      (entryOf userName "first name" (by decide)).Unsupported userRoot := by
  constructor
  · refine (PathText.standsFor_iff (quiet_entryOf _ _ _) rfl rfl).1.mpr ?_
    intro key hkey
    obtain rfl : key = ⟨'\'', rfl, "a||b".toList, by decide⟩ := by simpa [entryOf] using hkey
    decide
  · refine (PathText.standsFor_iff (v := .string "Ada") (quiet_entryOf _ _ _) rfl rfl).2.mpr ?_
    intro hunspaced
    have hblank := hunspaced ⟨'\'', rfl, "first name".toList, by decide⟩
      (by simp [entryOf]) ' ' (by decide)
    contradiction

/-- A path with a blank in its key leads to a value, but as an expression it has none. -/
theorem spaced_key_unsupported :
    Path.resolve userRoot "user['first name']".toList = some (.string "Ada") ∧
      Entries.get? "user['first name']" userRoot = none ∧
      evaluateText userRoot "user['first name']".toList =
        .error (.unsupported "user['first name']") ∧
      evaluateText userRoot "user['first name'] == 'Ada'".toList =
        .error (.unsupported "user['first name']") := by
  refine ⟨rfl, rfl, rfl, rfl⟩

end Runbook

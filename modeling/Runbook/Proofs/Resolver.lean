import Runbook.Proofs.Expression.Leaf
import Runbook.Proofs.Path
import Runbook.Resolver

/-!
# Runbook.Proofs.Resolver

Where the two resolvers agree. A path is quiet if its first name is an identifier and the names
behind its points are names of expressions (`PathText.Quiet`). Its quoted keys may hold whatever
stands for an operator elsewhere: no scan sees into them. So a quiet path is read as a reference, or
for its blanks as no expression at all, and both ways lead to the same value
(`Resolver.evaluate_eq_lookUp`).
-/

namespace Runbook

/-! ## quiet paths -/

/-- The names of the path are names of expressions, and the first one is an identifier. -/
structure PathText.Quiet (path : PathText) : Prop where
  head : ∃ identifier : Identifier, path.head.chars = identifier.chars
  members : ∀ name, Move.member name ∈ path.moves → ∀ c ∈ name.chars, isNameChar c = true

namespace Move

/-- Names are the only part of a move that scans see. -/
def IsQuiet (move : Move) : Prop :=
  ∀ name, move = .member name → ∀ c ∈ name.chars, isNameChar c = true

/-- Brackets hide what is in them from a scan. -/
theorem nested_of_isBracketed {move : Move} (hmove : move.isBracketed = true)
    (loud : List Char) : Scan.Nested loud move.chars := by
  cases move with
  | member name => contradiction
  | item digits =>
      have hdigits := nested_of_isNameChar fun c hc => isNameChar_of_isDigit (digits.isDigit c hc)
      exact nested_squareBrackets (hdigits.mono (List.nil_subset _)) loud
  | entry key => exact nested_squareBrackets (nested_quotes key.isQuote key.notMem []) loud

/-- A quiet move hides its operators from the scan for operators. -/
theorem IsQuiet.nested {move : Move} (h : move.IsQuiet) :
    Scan.Nested operatorChars move.chars := by
  cases hmove : move.isBracketed with
  | true => exact nested_of_isBracketed hmove _
  | false =>
      cases move with
      | member name =>
          have hname := nested_of_isNameChar (h name rfl)
          exact Scan.Nested.plain (by decide) (by decide) (hname.mono (List.subset_cons_self ..))
      | item digits | entry key => contradiction

/-- No operator is found within a quiet move. -/
theorem IsQuiet.passesMark {move : Move} (h : move.IsQuiet) : PassesMark move.chars := by
  cases hmove : move.isBracketed with
  | true => exact passesMark_of_nested (nested_of_isBracketed hmove ['.']) (by decide)
  | false =>
      cases move with
      | member name => exact passesMark_member (h name rfl)
      | item digits | entry key => contradiction

/-- A move ends the name before it. -/
theorem endsName (move : Move) (rest : List Char) : EndsName (move.chars ++ rest) := by
  intro c hc
  cases move with
  | member name | item digits | entry key =>
      cases hc
      exact ⟨by decide, by decide⟩

end Move

namespace PathText.Quiet

variable {path : PathText} (h : path.Quiet)
include h

/-- Each move of a quiet path is quiet. -/
theorem isQuiet {move : Move} (hmove : move ∈ path.moves) : move.IsQuiet := by
  rintro name rfl
  exact h.members name hmove

/-- No scan sees an operator in a quiet path. -/
theorem nested : Scan.Nested operatorChars path.chars := by
  obtain ⟨identifier, hhead⟩ := h.head
  have hname := nested_of_isNameChar identifier.isNameChar
  rw [chars, hhead]
  exact (hname.mono (List.subset_cons_self ..)).append
    (Scan.Nested.flatMap fun move hmove => (h.isQuiet hmove).nested)

/-- No operator is found within a quiet path. -/
theorem passesMark : PassesMark path.chars := by
  obtain ⟨identifier, hhead⟩ := h.head
  rw [chars, hhead]
  exact passesMark_append identifier.isNameChar (passesMark_flatMap Move.endsName
    fun move hmove => ⟨(h.isQuiet hmove).nested, (h.isQuiet hmove).passesMark⟩)

/-- A quiet path is no literal. -/
theorem literal?_eq_none : Expression.literal? path.chars = none := by
  obtain ⟨identifier, hhead⟩ := h.head
  have hends := endsName_flatMap Move.endsName endsName_nil path.moves
  rw [List.append_nil] at hends
  rw [chars, hhead]
  exact identifier.literal?_append hends

/-- A quiet path is read as a leaf. -/
theorem readSteps_eq (steps : Nat) :
    Expression.readSteps (steps + 1) path.chars = Expression.atom path.chars := by
  obtain ⟨identifier, hhead⟩ := h.head
  have hopen : Scan.unwrapped? path.chars = none := by
    rw [chars, hhead]
    exact identifier.unwrapped?_append _
  exact Expression.readSteps_of_nested path.solid h.nested h.passesMark hopen steps

end PathText.Quiet

/-! ## braces

Only the keys of a quiet path can hold braces.
-/

/-- The braces of either side. -/
def braces : List Char := ['{', '}']

section Braces

variable {m : Char} (hm : m ∈ braces)
include hm

/-- A name has no braces. -/
theorem notMem_of_isNameChar {cs : List Char} (h : ∀ c ∈ cs, isNameChar c = true) : m ∉ cs := by
  have hplain : ∀ m ∈ braces, isNameChar m = false := by decide
  intro hmem
  have hname := h m hmem
  rw [hplain m hm] at hname
  contradiction

/-- Blanks are no braces. -/
theorem notMem_of_blanks {cs : List Char} (h : Text.Blanks cs) : m ∉ cs := by
  have hsolid : ∀ m ∈ braces, Text.isBlank m = false := by decide
  intro hmem
  have hblank := h m hmem
  rw [hsolid m hm] at hblank
  contradiction

/-- A move has no two braces in a row, unless its key has them. -/
theorem Move.undoubled {move : Move} (hquiet : move.IsQuiet)
    (hkey : ∀ key, move = .entry key → Text.Undoubled m key.chars) :
    Text.Undoubled m move.chars := by
  have hmarks : ∀ m ∈ braces, m ≠ '.' ∧ m ≠ '[' ∧ m ≠ ']' ∧ Path.isQuote m = false := by decide
  obtain ⟨hpoint, hopen, hclose, hquote⟩ := hmarks m hm
  cases move with
  | member name =>
      have hname := notMem_of_isNameChar hm (hquiet name rfl)
      exact Text.undoubled_of_notMem (by simp [Move.chars, hpoint, hname])
  | item digits =>
      have hdigits := notMem_of_isNameChar hm fun c hc =>
        isNameChar_of_isDigit (digits.isDigit c hc)
      exact Text.undoubled_of_notMem (by simp [Move.chars, hopen, hclose, hdigits])
  | entry key =>
      have hne : m ≠ key.quote := by
        rintro rfl
        rw [key.isQuote] at hquote
        contradiction
      have hfront : Text.Undoubled m ['[', key.quote] :=
        Text.undoubled_of_notMem (by simp [hopen, hne])
      have hback : Text.Undoubled m [key.quote, ']'] :=
        Text.undoubled_of_notMem (by simp [hclose, hne])
      have hinside := hfront.append (hkey key rfl) (by simp [Ne.symm hne])
      have hwhole := hinside.append hback (by simp [Ne.symm hne])
      simpa [Move.chars, QuotedKey.text] using hwhole

/-- Neither a point nor a square bracket is a brace. -/
theorem Move.head?_ne (move : Move) (rest : List Char) : (move.chars ++ rest).head? ≠ some m := by
  have hmarks : ∀ m ∈ braces, '.' ≠ m ∧ '[' ≠ m := by decide
  obtain ⟨hpoint, hopen⟩ := hmarks m hm
  cases move with
  | member name => simpa [Move.chars] using hpoint
  | item digits => simpa [Move.chars] using hopen
  | entry key => simpa [Move.chars] using hopen

/-- Nor have moves in a row, since a bracket stands between their keys. -/
theorem Move.undoubled_moves {moves : List Move} (hquiet : ∀ move ∈ moves, move.IsQuiet)
    (hkeys : ∀ key, .entry key ∈ moves → Text.Undoubled m key.chars) :
    Text.Undoubled m (moves.flatMap Move.chars) := by
  induction moves with
  | nil => exact Text.undoubled_of_notMem (by simp)
  | cons move moves ih =>
      rw [List.forall_mem_cons] at hquiet
      have hmove := undoubled hm hquiet.1 fun key hkey => hkeys key (hkey ▸ List.mem_cons_self)
      have hrest := ih hquiet.2 fun key hkey => hkeys key (List.mem_cons_of_mem _ hkey)
      rw [List.flatMap_cons]
      refine hmove.append hrest fun _ => ?_
      cases moves with
      | nil => simp
      | cons next moves => exact next.head?_ne hm _

/-- Nor has a quiet path with such keys. -/
theorem PathText.undoubled {path : PathText} (hquiet : path.Quiet)
    (hkeys : ∀ key, Move.entry key ∈ path.moves → Text.Undoubled m key.chars) :
    Text.Undoubled m path.chars := by
  obtain ⟨identifier, hhead⟩ := hquiet.head
  have hname := notMem_of_isNameChar hm identifier.isNameChar
  have hmoves := Move.undoubled_moves hm (fun _ => hquiet.isQuiet) hkeys
  rw [chars, hhead]
  exact (Text.undoubled_of_notMem hname).append hmoves fun hlast =>
    absurd (List.mem_of_mem_getLast? hlast) hname

/-- Outer blanks bring no braces with them. -/
theorem undoubled_of_trim {cs : List Char} (h : Text.Undoubled m (Text.trim cs)) :
    Text.Undoubled m cs := by
  obtain ⟨pre, post, hpre, hpost, hcs⟩ := Text.exists_padding cs
  have hfront := Text.undoubled_of_notMem (notMem_of_blanks hm hpre)
  have hback := Text.undoubled_of_notMem (notMem_of_blanks hm hpost)
  have hinside := h.append hback fun _ hhead =>
    notMem_of_blanks hm hpost (List.mem_of_mem_head? hhead)
  rw [hcs]
  exact hfront.append hinside fun hlast =>
    absurd (List.mem_of_mem_getLast? hlast) (notMem_of_blanks hm hpre)

end Braces

/-! ## names and keys

The paths that are written most: a binding and a key in it, and the output of a step.
-/

/-- A name has no outer blanks. -/
theorem Name.solid (name : Name) : Text.Solid name.chars :=
  Text.solid_of_forall name.ne_nil fun c hc => (isNameChar_iff.1 (name.isNameChar c hc)).1

/-- A name of expressions is a name in a path. -/
def Name.toPathName (name : Name) : PathName where
  chars := name.chars
  solid := name.solid
  plain c hc := by
    have hc := name.isNameChar c hc
    refine ⟨?_, ?_, ?_⟩ <;>
      · rintro rfl
        contradiction

/-- A name and one key in single quotes. -/
def entryOf (name : Identifier) (key : String) (hkey : '\'' ∉ key.toList) : PathText :=
  ⟨name.toPathName, [.entry ⟨'\'', Path.isQuote_single, key.toList, hkey⟩]⟩

/-- Whatever the key, the path to it is quiet. -/
theorem quiet_entryOf (name : Identifier) (key : String) (hkey : '\'' ∉ key.toList) :
    (entryOf name key hkey).Quiet where
  head := ⟨name, rfl⟩
  members member hmember := by simp [entryOf] at hmember

/-- The name of the records. -/
def recordsName : Identifier where
  chars := "steps".toList
  ne_nil := by decide
  isNameChar := by decide
  starts := by simp
  ne_word := by decide

/-- The name of the output in a record. -/
def outputName : Name := ⟨"output".toList, by decide, by decide⟩

/-- The path to the output of a step, with the identifier of the step in single quotes. -/
def PathText.outputOf (id : String) (hid : '\'' ∉ id.toList) : PathText where
  head := recordsName.toPathName
  moves := [.entry ⟨'\'', rfl, id.toList, hid⟩, .member outputName.toPathName]

/-- Whatever the identifier of the step, the path to its output is quiet. -/
theorem PathText.quiet_outputOf (id : String) (hid : '\'' ∉ id.toList) :
    (outputOf id hid).Quiet where
  head := ⟨recordsName, rfl⟩
  members name hname := by
    have hname : name = outputName.toPathName := by simpa [outputOf] using hname
    rw [hname]
    exact outputName.isNameChar

/-! ## the two resolvers -/

/-- A text without operators: nothing, or a quiet path, with blanks around it. -/
def IsOperatorFree (cs : List Char) : Prop :=
  Text.trim cs = [] ∨ ∃ path : PathText, path.Quiet ∧ Text.trim cs = path.chars

namespace Resolver

/-- The value of a leaf that is no literal is what the path leads to. With blanks in it, it has no
value as an expression, and the path is followed all the same. -/
theorem evaluate_of_atom {context : Context} {cs : List Char} (hsolid : Text.Solid (Text.trim cs))
    (hliteral : Expression.literal? (Text.trim cs) = none)
    (hread : Expression.ofText cs = Expression.atom (Text.trim cs)) :
    evaluate context cs = lookUp context cs := by
  rw [evaluate, Expression.evaluateText, hread, Expression.atom, hliteral]
  cases (Text.trim cs).any Text.isBlank with
  | true => rfl
  | false =>
      have hfound : Expression.dereference context.entries (String.ofList (Text.trim cs)) =
          lookUp context cs := by
        simp only [Expression.dereference, lookUp, hsolid.isEmpty_eq, Bool.false_eq_true, if_false,
          String.toList_ofList]
        rfl
      simp only [Bool.false_eq_true, if_false, Expression.evaluate, hfound]
      cases lookUp context cs <;> rfl

/-- Where there are no operators, the value of an expression is what its path leads to. -/
theorem evaluate_eq_lookUp {cs : List Char} (h : IsOperatorFree cs) (context : Context) :
    evaluate context cs = lookUp context cs := by
  rcases h with hblank | ⟨path, hquiet, htrim⟩
  · have hread : Expression.ofText cs = .malformed .empty := by
      simp [Expression.ofText, Expression.readSteps, hblank]
    rw [evaluate, Expression.evaluateText, hread]
    rfl
  · have hread : Expression.ofText cs = Expression.atom (Text.trim cs) := by
      rw [Expression.ofText, ← Expression.readSteps_trim, htrim, hquiet.readSteps_eq]
    refine evaluate_of_atom ?_ ?_ hread
    · rw [htrim]
      exact path.solid
    · rw [htrim]
      exact hquiet.literal?_eq_none

end Resolver

end Runbook

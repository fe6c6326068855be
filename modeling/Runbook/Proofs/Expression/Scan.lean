import Runbook.Expression.Scan
import Runbook.Proofs.Text.Blank
import Runbook.Proofs.Text.Search

/-!
# Runbook.Proofs.Expression.Scan

What a scan for an operator does with a text that is put together from parts.

A scan passes over a part if the cut that it makes in the whole is the one that it makes behind the
part (`Passes`). It passes over a text with matching quotes and brackets that shows no operator at
its top level: `Nested loud cs` is a text of that form, where the characters of `loud` stand inside
quotes and brackets only. A nested text leaves the state of the scan as it was (`Nested.run_eq`),
every scan for an operator that starts with a loud character passes over it (`Nested.passes`), and
so does the count of round brackets (`Nested.balanced_append`).
-/

namespace Runbook.Scan

/-! ## the state behind a text -/

/-- The state behind a text. -/
def run (s : Scan) (cs : List Char) : Scan := cs.foldl next s

@[simp] theorem run_nil (s : Scan) : s.run [] = s := rfl

@[simp] theorem run_cons (s : Scan) (c : Char) (cs : List Char) :
    s.run (c :: cs) = (s.next c).run cs := rfl

/-- A text in two parts is passed part by part. -/
theorem run_append (s : Scan) (cs ds : List Char) : s.run (cs ++ ds) = (s.run cs).run ds :=
  List.foldl_append

/-- Inside quotes only the quote that opened them changes the state. -/
theorem next_quoted {q c : Char} (hc : c ≠ q) (depth : Nat) :
    next ⟨some q, depth⟩ c = ⟨some q, depth⟩ := by
  simp [next, hc]

/-- At the top level and inside brackets only delimiters change the state. -/
theorem next_plain {c : Char} (hc : delimits c = false) (depth : Nat) :
    next ⟨none, depth⟩ c = ⟨none, depth⟩ := by
  simp only [delimits, Bool.or_eq_false_iff] at hc
  simp [next, hc]

/-- A quote opens a quoted part. -/
theorem next_quote {q : Char} (hq : Path.isQuote q = true) (depth : Nat) :
    next ⟨none, depth⟩ q = ⟨some q, depth⟩ := by
  simp [next, hq]

/-- Inside a quote every other character is passed over. -/
theorem run_quoted {q : Char} {inner : List Char} (h : q ∉ inner) (depth : Nat) :
    run ⟨some q, depth⟩ inner = ⟨some q, depth⟩ := by
  induction inner with
  | nil => rfl
  | cons c inner ih =>
      rw [List.mem_cons, not_or] at h
      rw [run_cons, next_quoted (Ne.symm h.1)]
      exact ih h.2

/-- The quote that is open is one of the two. -/
def Quotes (s : Scan) : Prop := ∀ q, s.quote = some q → Path.isQuote q = true

/-- The quote that is open stays one of the two behind a character. -/
theorem Quotes.next {s : Scan} (h : s.Quotes) (c : Char) : (s.next c).Quotes := by
  intro q hq
  unfold Scan.next at hq
  cases hquote : s.quote with
  | some q' =>
      simp only [hquote] at hq
      split at hq
      · contradiction
      · exact h q hq
  | none =>
      simp only [hquote] at hq
      split at hq
      · next hc =>
          cases hq
          exact hc
      · exact absurd hq (by split <;> (try split) <;> simp [hquote])

/-- So it does behind a text. -/
theorem Quotes.run {s : Scan} (h : s.Quotes) (cs : List Char) : (s.run cs).Quotes := by
  induction cs generalizing s with
  | nil => exact h
  | cons c cs ih => exact ih (h.next c)

/-- Characters that are no quotes and no brackets leave every state as it is. -/
theorem Quotes.next_plain {s : Scan} (h : s.Quotes) {c : Char} (hc : delimits c = false) :
    s.next c = s := by
  obtain ⟨quote, depth⟩ := s
  cases quote with
  | none => exact Scan.next_plain hc depth
  | some q =>
      have hne : c ≠ q := by
        rintro rfl
        simp [delimits, h c rfl] at hc
      exact next_quoted hne depth

/-- A quoted part does not count for the balance of brackets. -/
theorem balanced_quoted {q : Char} {inner : List Char} (h : q ∉ inner) (depth : Nat)
    (rest : List Char) :
    balanced depth (some q) (inner ++ q :: rest) = balanced depth none rest := by
  induction inner with
  | nil => simp [balanced]
  | cons c inner ih =>
      rw [List.mem_cons, not_or] at h
      rw [List.cons_append, balanced, if_neg (Ne.symm h.1)]
      exact ih h.2

/-! ## operators and cuts -/

/-- No operator is found inside quotes and brackets. -/
theorem operator?_of_ne_top {s : Scan} (hs : s ≠ top) (operator cs : List Char) :
    s.operator? operator cs = none := by
  cases cs with
  | nil => rfl
  | cons c cs => simp [operator?, hs]

/-- No operator starts with a delimiter. -/
theorem operator?_delimiter {c : Char} (hc : delimits c = true) (s : Scan)
    (operator cs : List Char) : s.operator? operator (c :: cs) = none := by
  simp [operator?, hc]

/-- Where the text does not go on with the operator, there is none. -/
theorem operator?_eq_none {operator : List Char} {c : Char} {cs : List Char}
    (h : Text.dropLead? operator (c :: cs) = none) (s : Scan) :
    s.operator? operator (c :: cs) = none := by
  rw [operator?, h]
  split <;> rfl

/-- At the top level an operator is found where the text goes on with it. -/
theorem operator?_top {c : Char} (hc : delimits c = false) (operator cs : List Char) :
    top.operator? operator (c :: cs) = Text.dropLead? operator (c :: cs) := by
  simp [operator?, hc]

/-- An operator that fits into a first part starts there in the whole if it does in the part. -/
theorem operator?_append {s : Scan} {operator cs tail : List Char}
    (h : s.operator? operator cs = some tail) (rest : List Char) :
    s.operator? operator (cs ++ rest) = some (tail ++ rest) := by
  cases cs with
  | nil => simp [operator?] at h
  | cons c cs =>
      rw [operator?] at h
      rw [List.cons_append, operator?]
      split at h
      · next htop =>
          rw [if_pos htop]
          exact Text.dropLead?_append h rest
      · contradiction

/-- A text that is long enough decides alone whether an operator starts at its front. -/
theorem operator?_append_eq_none {s : Scan} {operator cs : List Char}
    (hfits : operator.length ≤ cs.length) (h : s.operator? operator cs = none)
    (rest : List Char) (hne : cs ≠ []) : s.operator? operator (cs ++ rest) = none := by
  cases cs with
  | nil => contradiction
  | cons c cs =>
      rw [operator?] at h
      rw [List.cons_append, operator?]
      split at h
      · next htop =>
          rw [if_pos htop]
          cases hwhole : Text.dropLead? operator (c :: (cs ++ rest)) with
          | none => rfl
          | some tail => rw [Text.dropLead?_of_append hfits hwhole] at h; contradiction
      · next htop => rw [if_neg htop]

/-- At the top level a cut is where the operator is the lead of the text. -/
theorem cutTop?_plain {c : Char} (hc : delimits c = false) (operator cs : List Char) :
    cutTop? operator top (c :: cs) =
      match Text.dropLead? operator (c :: cs) with
      | some rest => some ([], rest)
      | none => (cutTop? operator top cs).map fun (before, after) => (c :: before, after) := by
  have hnext : next top c = top := next_plain hc 0
  cases hlead : Text.dropLead? operator (c :: cs) with
  | some rest => simp [cutTop?, operator?_top hc, hlead]
  | none => simp [cutTop?, operator?_top hc, hlead, hnext]

/-- The scan stands at the top level where it cuts. -/
theorem run_of_cutTop? {operator cs before after : List Char} {s : Scan}
    (h : cutTop? operator s cs = some (before, after)) : s.run before = top := by
  induction cs generalizing s before with
  | nil => simp [cutTop?] at h
  | cons c cs ih =>
      rw [cutTop?] at h
      cases hop : s.operator? operator (c :: cs) with
      | some rest =>
          simp only [hop, Option.some.injEq, Prod.mk.injEq] at h
          rw [← h.1, run_nil]
          by_contra hs
          rw [operator?_of_ne_top hs] at hop
          contradiction
      | none =>
          simp only [hop, Option.map_eq_some_iff, Prod.mk.injEq, Prod.exists] at h
          obtain ⟨b, a, hcut, rfl, rfl⟩ := h
          rw [run_cons]
          exact ih hcut

/-- A cut inside a first part is the cut of the whole. -/
theorem cutTop?_append {operator cs before after : List Char} {s : Scan}
    (h : cutTop? operator s cs = some (before, after)) (rest : List Char) :
    cutTop? operator s (cs ++ rest) = some (before, after ++ rest) := by
  induction cs generalizing s before with
  | nil => simp [cutTop?] at h
  | cons c cs ih =>
      have hfits : operator.length ≤ (c :: cs).length := by
        rw [eq_of_cutTop? h]
        simp only [List.length_append]
        omega
      rw [cutTop?] at h
      rw [List.cons_append, cutTop?, ← List.cons_append]
      cases hop : s.operator? operator (c :: cs) with
      | some tail =>
          simp only [hop, Option.some.injEq, Prod.mk.injEq] at h
          rw [operator?_append hop, ← h.1, ← h.2]
      | none =>
          simp only [hop, Option.map_eq_some_iff, Prod.mk.injEq, Prod.exists] at h
          obtain ⟨b, a, hcut, rfl, rfl⟩ := h
          rw [operator?_append_eq_none hfits hop rest (by simp), ih hcut]
          rfl

/-! ## passing over a part -/

/-- The scan for an operator makes its cut behind the part. -/
def Passes (operator : List Char) (s : Scan) (part rest : List Char) : Prop :=
  cutTop? operator s (part ++ rest) =
    (cutTop? operator (s.run part) rest).map fun (before, after) => (part ++ before, after)

namespace Passes

variable {operator : List Char} {s : Scan}

theorem nil (rest : List Char) : Passes operator s [] rest := by
  simp [Passes]

/-- A scan passes over a part if it finds nothing at the first character and passes over the
others. -/
theorem cons {c : Char} {part rest : List Char}
    (hc : s.operator? operator (c :: (part ++ rest)) = none)
    (h : Passes operator (s.next c) part rest) : Passes operator s (c :: part) rest := by
  unfold Passes at h ⊢
  rw [List.cons_append, cutTop?, hc, h, run_cons, Option.map_map]
  rfl

/-- Parts that are passed over one behind the other are passed over together. -/
theorem append {first second rest : List Char} (hfirst : Passes operator s first (second ++ rest))
    (hsecond : Passes operator (s.run first) second rest) :
    Passes operator s (first ++ second) rest := by
  unfold Passes at hfirst hsecond ⊢
  rw [List.append_assoc, hfirst, hsecond, run_append, Option.map_map]
  congr 1
  funext cut
  simp

/-- No scan cuts inside a quote. -/
theorem quoted {q : Char} {inner : List Char} (h : q ∉ inner) (depth : Nat) (rest : List Char) :
    Passes operator ⟨some q, depth⟩ inner rest := by
  induction inner with
  | nil => exact nil rest
  | cons c inner ih =>
      rw [List.mem_cons, not_or] at h
      refine cons (operator?_of_ne_top (by simp [top]) _ _) ?_
      rw [next_quoted (Ne.symm h.1)]
      exact ih h.2

/-- A scan passes over a part without a cut if no operator can reach over its end. -/
theorem of_eq_none {part : List Char} (h : cutTop? operator s part = none)
    (hend : ∀ c, part.getLast? = some c → c ∉ operator) (rest : List Char) :
    Passes operator s part rest := by
  induction part generalizing s with
  | nil => exact nil rest
  | cons c part ih =>
      rw [cutTop?] at h
      cases hop : s.operator? operator (c :: part) with
      | some tail => simp [hop] at h
      | none =>
          simp only [hop, Option.map_eq_none_iff] at h
          refine cons ?_ (ih h fun d hd => hend d (by simp [List.getLast?_cons, hd]))
          by_cases hfits : operator.length ≤ (c :: part).length
          · exact operator?_append_eq_none hfits hop rest (by simp)
          · refine operator?_eq_none ?_ s
            cases hlead : Text.dropLead? operator (c :: part ++ rest) with
            | none => exact hlead
            | some tail =>
                have hlast := List.getLast?_eq_some_getLast (List.cons_ne_nil c part)
                exact absurd (Text.mem_of_dropLead?_append (by omega) hlead
                  (List.getLast_mem (List.cons_ne_nil c part))) (hend _ hlast)

/-- The cut behind a part that is passed over is the cut of the rest. -/
theorem cutTop?_append {part rest : List Char} (h : Passes operator top part rest)
    (htop : run top part = top) :
    cutTop? operator top (part ++ rest) =
      (cutTop? operator top rest).map fun (before, after) => (part ++ before, after) := by
  rwa [Passes, htop] at h

/-- The scan cuts at an operator right behind a part that it passes over. -/
theorem cutTop?_eq_some {m : Char} {ms part rest : List Char}
    (h : Passes (m :: ms) top part (m :: ms ++ rest)) (htop : run top part = top)
    (hplain : delimits m = false) :
    cutTop? (m :: ms) top (part ++ (m :: ms ++ rest)) = some (part, rest) := by
  have hlead : Text.dropLead? (m :: ms) (m :: (ms ++ rest)) = some rest :=
    Text.dropLead?_self (m :: ms) rest
  rw [h.cutTop?_append htop, List.cons_append, cutTop?, operator?_top hplain, hlead]
  simp

end Passes

/-! ## nested texts -/

/-- The closing bracket that belongs to an opening one. -/
def partner? (c : Char) : Option Char :=
  if c = '(' then some ')' else if c = '[' then some ']' else if c = '{' then some '}' else none

/-- The quotes and brackets of the text match, and the characters of `loud` stand inside them
only. -/
inductive Nested : List Char → List Char → Prop
  | nil {loud : List Char} : Nested loud []
  | plain {loud : List Char} {c : Char} {cs : List Char} (hc : delimits c = false)
      (hquiet : c ∉ loud) (hcs : Nested loud cs) : Nested loud (c :: cs)
  | quote {loud : List Char} {q : Char} {inner cs : List Char} (hq : Path.isQuote q = true)
      (hinner : q ∉ inner) (hcs : Nested loud cs) : Nested loud (q :: (inner ++ q :: cs))
  | bracket {loud : List Char} {o c : Char} {inner cs : List Char} (ho : partner? o = some c)
      (hinner : Nested [] inner) (hcs : Nested loud cs) : Nested loud (o :: (inner ++ c :: cs))

/-- A pair of brackets opens and closes, and has no quote in it; round ones go with round ones. -/
theorem bracket_of_partner? {o c : Char} (h : partner? o = some c) :
    Path.isQuote o = false ∧ opens o = true ∧ Path.isQuote c = false ∧ opens c = false ∧
      closes c = true ∧ (o = '(' ↔ c = ')') := by
  unfold partner? at h
  split at h
  · next ho => cases h; subst ho; decide
  · split at h
    · next ho => cases h; subst ho; decide
    · split at h
      · next ho => cases h; subst ho; decide
      · contradiction

/-- An opening bracket goes one level deeper. -/
theorem next_opening {o c : Char} (h : partner? o = some c) (depth : Nat) :
    next ⟨none, depth⟩ o = ⟨none, depth + 1⟩ := by
  obtain ⟨hquote, hopens, -⟩ := bracket_of_partner? h
  simp [next, hquote, hopens]

/-- The bracket that belongs to it comes back. -/
theorem next_closing {o c : Char} (h : partner? o = some c) (depth : Nat) :
    next ⟨none, depth + 1⟩ c = ⟨none, depth⟩ := by
  obtain ⟨-, -, hquote, hopens, hcloses, -⟩ := bracket_of_partner? h
  simp [next, hquote, hopens, hcloses]

namespace Nested

variable {loud : List Char}

/-- Nested texts in a row are nested. -/
theorem append {cs ds : List Char} (hcs : Nested loud cs) (hds : Nested loud ds) :
    Nested loud (cs ++ ds) := by
  induction hcs with
  | nil => exact hds
  | plain hc hquiet _ ih => exact plain hc hquiet (ih hds)
  | quote hq hinner _ ih =>
      rw [List.cons_append, List.append_assoc, List.cons_append]
      exact quote hq hinner (ih hds)
  | bracket ho hinner _ _ ih =>
      rw [List.cons_append, List.append_assoc, List.cons_append]
      exact bracket ho hinner (ih hds)

/-- So are any number of them. -/
theorem flatMap {α : Type} {f : α → List Char} {items : List α}
    (h : ∀ x ∈ items, Nested loud (f x)) : Nested loud (items.flatMap f) := by
  induction items with
  | nil => exact nil
  | cons x items ih =>
      rw [List.forall_mem_cons] at h
      rw [List.flatMap_cons]
      exact h.1.append (ih h.2)

/-- Fewer characters may be called loud. -/
theorem mono {quieter cs : List Char} (hcs : Nested loud cs) (h : quieter ⊆ loud) :
    Nested quieter cs := by
  induction hcs with
  | nil => exact nil
  | plain hc hquiet _ ih => exact plain hc (fun hmem => hquiet (h hmem)) (ih h)
  | quote hq hinner _ ih => exact quote hq hinner (ih h)
  | bracket ho hinner _ _ ih => exact bracket ho hinner (ih h)

/-- A text without delimiters and loud characters is nested. -/
theorem of_forall {cs : List Char} (h : ∀ c ∈ cs, delimits c = false ∧ c ∉ loud) :
    Nested loud cs := by
  induction cs with
  | nil => exact nil
  | cons c cs ih =>
      have hc := h c (by simp)
      exact plain hc.1 hc.2 (ih fun d hd => h d (by simp [hd]))

/-- A nested text does not start with a loud character. -/
theorem head_notMem {c : Char} {cs : List Char} (hcs : Nested loud cs)
    (hhead : cs.head? = some c) (hplain : delimits c = false) : c ∉ loud := by
  cases hcs with
  | nil => contradiction
  | plain _ hquiet _ =>
      cases hhead
      exact hquiet
  | quote hq _ _ =>
      cases hhead
      simp [delimits, hq] at hplain
  | bracket ho _ _ =>
      cases hhead
      simp [delimits, (bracket_of_partner? ho).2.1] at hplain

/-- A text in round brackets is nested, whatever is loud. -/
theorem enclosed {cs : List Char} (hcs : Nested [] cs) : Nested loud ('(' :: (cs ++ [')'])) :=
  bracket rfl hcs nil

/-- A nested text leaves the scan as it was. -/
theorem run_eq {cs : List Char} (hcs : Nested loud cs) (depth : Nat) :
    run ⟨none, depth⟩ cs = ⟨none, depth⟩ := by
  induction hcs generalizing depth with
  | nil => rfl
  | plain hc _ _ ih => rw [run_cons, next_plain hc, ih]
  | quote hq hinner _ ih =>
      rw [run_cons, next_quote hq, run_append, run_quoted hinner, run_cons]
      simp only [next, if_true]
      exact ih depth
  | bracket ho _ _ ihinner ih =>
      rw [run_cons, next_opening ho, run_append, ihinner, run_cons, next_closing ho, ih]

/-- A nested text leads from the top level to the top level. -/
theorem run_top {cs : List Char} (hcs : Nested loud cs) : run top cs = top := hcs.run_eq 0

/-- A scan passes over a nested text inside brackets, and at the top level if its operator starts
with a loud character. -/
theorem passes_of {operator cs : List Char} (hcs : Nested loud cs) (depth : Nat)
    (hoperator : 0 < depth ∨ ∃ m ms, operator = m :: ms ∧ m ∈ loud) (rest : List Char) :
    Passes operator ⟨none, depth⟩ cs rest := by
  induction hcs generalizing depth rest with
  | nil => exact Passes.nil rest
  | @plain loud c cs hc hquiet _ ih =>
      refine Passes.cons ?_ ?_
      · -- within brackets no operator is seen; at the top level this character starts none
        rcases hoperator with hdeep | ⟨m, ms, rfl, hm⟩
        · exact operator?_of_ne_top (by simp [top]; omega) _ _
        · have hne : m ≠ c := fun heq => hquiet (heq ▸ hm)
          exact operator?_eq_none (Text.dropLead?_cons_ne hne _ _) _
      · rw [next_plain hc]
        exact ih depth hoperator rest
  | @quote loud q inner cs hq hinner _ ih =>
      have hdelimits : delimits q = true := by simp [delimits, hq]
      refine Passes.cons (operator?_delimiter hdelimits _ _ _) ?_
      rw [next_quote hq]
      refine Passes.append (Passes.quoted hinner depth _) ?_
      rw [run_quoted hinner]
      refine Passes.cons (operator?_delimiter hdelimits _ _ _) ?_
      have hnext : next ⟨some q, depth⟩ q = ⟨none, depth⟩ := by simp [next]
      rw [hnext]
      exact ih depth hoperator rest
  | @bracket loud o c inner cs ho hinner _ ihinner ih =>
      obtain ⟨-, hopens, -, -, hcloses, -⟩ := bracket_of_partner? ho
      refine Passes.cons (operator?_delimiter (by simp [delimits, hopens]) _ _ _) ?_
      rw [next_opening ho]
      refine Passes.append (ihinner (depth + 1) (.inl (by omega)) _) ?_
      rw [hinner.run_eq]
      refine Passes.cons (operator?_delimiter (by simp [delimits, hcloses]) _ _ _) ?_
      rw [next_closing ho]
      exact ih depth hoperator rest

/-- A scan for an operator passes over a text in which the first character of the operator is
loud. -/
theorem passes {m : Char} {cs : List Char} (hcs : Nested loud cs) (hm : m ∈ loud)
    (ms rest : List Char) : Passes (m :: ms) top cs rest :=
  hcs.passes_of 0 (.inr ⟨m, ms, rfl, hm⟩) rest

/-- So the cut in a text with more behind it is the cut behind it. -/
theorem cutTop?_append {m : Char} {cs : List Char} (hcs : Nested loud cs) (hm : m ∈ loud)
    (ms rest : List Char) :
    cutTop? (m :: ms) top (cs ++ rest) =
      (cutTop? (m :: ms) top rest).map fun (before, after) => (cs ++ before, after) :=
  (hcs.passes hm ms rest).cutTop?_append hcs.run_top

/-- The operator right behind such a text is found. -/
theorem cutTop?_eq_some {m : Char} {cs : List Char} (hcs : Nested loud cs) (hm : m ∈ loud)
    (hplain : delimits m = false) (ms rest : List Char) :
    cutTop? (m :: ms) top (cs ++ (m :: ms ++ rest)) = some (cs, rest) :=
  (hcs.passes hm ms _).cutTop?_eq_some hcs.run_top hplain

/-- In such a text alone there is no cut. -/
theorem cutTop?_eq_none {m : Char} {cs : List Char} (hcs : Nested loud cs) (hm : m ∈ loud)
    (ms : List Char) : cutTop? (m :: ms) top cs = none := by
  have h := hcs.passes hm ms []
  simpa [Passes, cutTop?] using h

/-- The count of round brackets passes over a nested text. -/
theorem balanced_append {cs : List Char} (hcs : Nested loud cs) (depth : Nat) (rest : List Char) :
    balanced depth none (cs ++ rest) = balanced depth none rest := by
  induction hcs generalizing depth rest with
  | nil => rfl
  | @plain loud c cs hc _ _ ih =>
      simp only [delimits, opens, closes, Bool.or_eq_false_iff, decide_eq_false_iff_not] at hc
      simp only [List.cons_append, balanced, hc, if_false, Bool.false_eq_true]
      exact ih depth rest
  | @quote loud q inner cs hq hinner _ ih =>
      simp only [List.cons_append, balanced, hq, if_true, List.append_assoc]
      rw [balanced_quoted hinner]
      exact ih depth rest
  | @bracket loud o c inner cs ho hinner _ ihinner ih =>
      obtain ⟨hoquote, hopens, hcquote, hcopens, -, hround⟩ := bracket_of_partner? ho
      have hoclose : o ≠ ')' := by rintro rfl; contradiction
      have hcopen : c ≠ '(' := by rintro rfl; contradiction
      simp only [List.cons_append, List.append_assoc, balanced, hoquote, Bool.false_eq_true,
        if_false, hoclose]
      by_cases hoopen : o = '('
      · have hcclose : c = ')' := hround.1 hoopen
        rw [if_pos hoopen, ihinner]
        simp only [balanced, hcclose]
        exact ih depth rest
      · have hcclose : c ≠ ')' := fun h => hoopen (hround.2 h)
        rw [if_neg hoopen, ihinner]
        simp only [balanced, hcquote, Bool.false_eq_true, if_false, hcopen, hcclose]
        exact ih depth rest

/-- The round brackets of a nested text match. -/
theorem balanced_eq {cs : List Char} (hcs : Nested loud cs) : balanced 0 none cs = true := by
  simpa [balanced] using hcs.balanced_append 0 []

end Nested

/-! ## brackets around a text -/

/-- The brackets around a nested text are taken off. -/
theorem unwrapped?_enclosed {loud cs : List Char} (hcs : Nested loud cs) :
    unwrapped? ('(' :: (cs ++ [')'])) = some cs := by
  simp [unwrapped?, hcs.balanced_eq]

/-- A text that does not end with a round bracket is not enclosed by any. -/
theorem unwrapped?_of_getLast? {cs : List Char} {c : Char} (h : cs.getLast? = some c)
    (hc : c ≠ ')') : unwrapped? cs = none := by
  cases cs with
  | nil => rfl
  | cons d cs =>
      have hlast : cs.getLast? ≠ some ')' := by
        intro hclose
        rw [List.getLast?_cons, hclose] at h
        exact hc (Option.some.inj h).symm
      simp [unwrapped?, hlast]

/-- The first bracket of a nested text is closed inside the text, so it does not enclose what
follows. -/
theorem unwrapped?_append {loud cs more : List Char} (hcs : Nested loud cs) (hne : cs ≠ [])
    (hmore : more ≠ []) : unwrapped? (cs ++ more) = none := by
  cases hcs with
  | nil => contradiction
  | @plain _ c cs hc _ _ =>
      have hopen : c ≠ '(' := by rintro rfl; contradiction
      simp [unwrapped?, hopen]
  | @quote _ q inner cs hq hinner _ =>
      have hopen : q ≠ '(' := by rintro rfl; contradiction
      simp [unwrapped?, hopen]
  | @bracket _ o c inner cs ho hinner _ =>
      by_cases hopen : o = '('
      · obtain ⟨-, -, hcquote, hcopens, -, hround⟩ := bracket_of_partner? ho
        have hclose : c = ')' := hround.1 hopen
        subst hclose
        have hlast : (inner ++ ')' :: (cs ++ more)).dropLast =
            inner ++ ')' :: (cs ++ more).dropLast := by
          rw [List.dropLast_append_of_ne_nil (by simp)]
          rw [List.dropLast_cons_of_ne_nil (by simp [hmore])]
        have hunbalanced : balanced 0 none (inner ++ ')' :: (cs ++ more).dropLast) = false := by
          rw [hinner.balanced_append]
          simp [balanced, hcquote]
        simp [unwrapped?, hlast, hunbalanced]
      · simp [unwrapped?, hopen]

/-! ## cutting a text into its parts -/

/-- Splitting leaves at least one part. -/
theorem splitTopSteps_ne_nil (operator : List Char) (steps : Nat) (cs : List Char) :
    splitTopSteps operator steps cs ≠ [] := by
  cases steps with
  | zero => simp [splitTopSteps]
  | succ steps =>
      rw [splitTopSteps]
      split <;> simp

/-- Where there is a cut there are two parts or more. -/
theorem splitTop_of_eq_some {operator cs before after : List Char}
    (h : cutTop? operator top cs = some (before, after)) :
    ∃ second more, splitTop operator cs = before :: second :: more := by
  cases cs with
  | nil => contradiction
  | cons c cs =>
      rw [splitTop, List.length_cons, splitTopSteps, h]
      cases hrest : splitTopSteps operator cs.length after with
      | nil => exact absurd hrest (splitTopSteps_ne_nil _ _ _)
      | cons second more => exact ⟨second, more, congrArg (before :: ·) hrest⟩

/-- Without a cut the text is the only part. -/
theorem splitTop_of_eq_none {operator cs : List Char} (h : cutTop? operator top cs = none) :
    splitTop operator cs = [cs] := by
  unfold splitTop
  cases cs.length with
  | zero => rfl
  | succ steps => rw [splitTopSteps, h]

/-- The texts with the operator between them, a blank on each side of it. -/
def joined (operator : List Char) : List Char → List (List Char) → List Char
  | first, [] => first
  | first, second :: more => first ++ ' ' :: (operator ++ ' ' :: joined operator second more)

/-- Joined texts are at least as long as they are many, since an operator stands between them. -/
theorem length_le_joined (operator first : List Char) (more : List (List Char)) :
    more.length ≤ (joined operator first more).length := by
  induction more generalizing first with
  | nil => simp
  | cons second more ih =>
      have hrest := ih second
      simp only [joined, List.length_append, List.length_cons]
      omega

/-- Each of the texts is no longer than all of them joined. -/
theorem length_le_joined_of_mem (operator : List Char) {first t : List Char}
    {more : List (List Char)} (ht : t ∈ first :: more) :
    t.length ≤ (joined operator first more).length := by
  induction more generalizing first with
  | nil => simp_all [joined]
  | cons second more ih =>
      simp only [joined, List.length_append, List.length_cons]
      rcases List.mem_cons.1 ht with rfl | ht
      · omega
      · have hrest := ih ht
        omega

/-- A joined text is longer than each of the texts, if there are two. -/
theorem length_lt_joined {operator first second t : List Char} {more : List (List Char)}
    (ht : t ∈ first :: second :: more) :
    t.length < (joined operator first (second :: more)).length := by
  simp only [joined, List.length_append, List.length_cons]
  rcases List.mem_cons.1 ht with rfl | ht
  · omega
  · have hrest := length_le_joined_of_mem operator ht
    omega

/-- Solid texts are solid when they are joined. -/
theorem joined_solid {operator first : List Char} {more : List (List Char)}
    (h : ∀ t ∈ first :: more, Text.Solid t) : Text.Solid (joined operator first more) := by
  induction more generalizing first with
  | nil => exact h first (List.mem_cons_self ..)
  | cons second more ih =>
      have hfirst := h first (List.mem_cons_self ..)
      have hrest := ih fun t ht => h t (List.mem_cons_of_mem _ ht)
      have hwhole := hfirst.append hrest (' ' :: (operator ++ [' ']))
      simpa [joined] using hwhole

/-- Nested texts are nested when they are joined, if the operator is. -/
theorem joined_nested {loud operator first : List Char} {more : List (List Char)}
    (hoperator : Nested loud (' ' :: (operator ++ [' '])))
    (h : ∀ t ∈ first :: more, Nested loud t) :
    Nested loud (joined operator first more) := by
  induction more generalizing first with
  | nil => exact h first (List.mem_cons_self ..)
  | cons second more ih =>
      have hfirst := h first (List.mem_cons_self ..)
      have hrest := ih fun t ht => h t (List.mem_cons_of_mem _ ht)
      have hwhole := hfirst.append (hoperator.append hrest)
      simpa [joined] using hwhole

section Joined

variable {m : Char} (hm : delimits m = false) (hspace : ' ' ≠ m) (ms : List Char)
include hm hspace

/-- Cutting takes joined texts apart again; each keeps the blanks around it. -/
theorem splitTopSteps_joined {steps : Nat} {pre first : List Char} {more : List (List Char)}
    (hsteps : more.length ≤ steps) (hblanks : Text.Blanks pre) (hquiet : Nested [m] pre)
    (htexts : ∀ t ∈ first :: more, Text.Solid t ∧ Nested [m] t) :
    (splitTopSteps (m :: ms) steps (pre ++ joined (m :: ms) first more)).map Text.trim =
      first :: more := by
  have hspaceNested : Nested [m] [' '] :=
    Nested.plain (by decide) (by simpa using hspace) Nested.nil
  induction more generalizing steps pre first with
  | nil =>
      obtain ⟨hsolid, hnested⟩ := htexts first (List.mem_cons_self ..)
      have hnone := (hquiet.append hnested).cutTop?_eq_none (List.mem_singleton_self m) ms
      have htrim : Text.trim (pre ++ first) = first := by
        simpa using Text.trim_padded hblanks Text.blanks_nil hsolid
      cases steps with
      | zero => simp [joined, splitTopSteps, htrim]
      | succ steps => simp [joined, splitTopSteps, hnone, htrim]
  | cons second more ih =>
      obtain ⟨hsolid, hnested⟩ := htexts first (List.mem_cons_self ..)
      have htext : pre ++ joined (m :: ms) first (second :: more) =
          pre ++ (first ++ [' ']) ++ (m :: ms ++ ([' '] ++ joined (m :: ms) second more)) := by
        simp [joined]
      have hcut := (hquiet.append (hnested.append hspaceNested)).cutTop?_eq_some
        (List.mem_singleton_self m) hm ms ([' '] ++ joined (m :: ms) second more)
      have htrim : Text.trim (pre ++ (first ++ [' '])) = first :=
        Text.trim_padded hblanks Text.blanks_space hsolid
      cases steps with
      | zero => simp at hsteps
      | succ steps =>
          rw [htext, splitTopSteps, hcut]
          simp only [List.map_cons, htrim, List.cons.injEq, true_and]
          have hsteps' : more.length ≤ steps := by simpa using hsteps
          exact ih hsteps' Text.blanks_space hspaceNested fun t ht =>
            htexts t (List.mem_cons_of_mem _ ht)

/-- Splitting takes apart what was joined, up to the blanks around the operators. -/
theorem splitTop_joined {first : List Char} {more : List (List Char)}
    (htexts : ∀ t ∈ first :: more, Text.Solid t ∧ Nested [m] t) :
    (splitTop (m :: ms) (joined (m :: ms) first more)).map Text.trim = first :: more :=
  splitTopSteps_joined hm hspace ms (length_le_joined _ _ _) Text.blanks_nil Nested.nil htexts

end Joined

end Runbook.Scan

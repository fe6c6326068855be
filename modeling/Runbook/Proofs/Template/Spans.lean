import Runbook.Proofs.Text.Search
import Runbook.Template

/-!
# Runbook.Proofs.Template.Spans

Where the spans of a text stand. A text has a span if doubled opening braces are in it and doubled
closing braces behind them (`HasSpan`). The first span opens at the first doubled opening brace and
closes at the first doubled closing brace behind that one (`HasSpan.exists_first`), and the other
spans are those of the text behind it: so a statement about texts is proved for the texts without a
span, and for a span with any text behind it (`spanInduction`). The pieces, the rendering and the
expressions of a text are told in the same two cases, without the bound on the number of spans.
-/

namespace Runbook.Template

/-! ## the first span -/

/-- Doubled opening braces stand in the text, and doubled closing braces behind them. -/
def HasSpan (cs : List Char) : Prop :=
  ∃ before inner after, cs = before ++ (opening ++ (inner ++ (closing ++ after)))

/-- Without two opening braces in a row there is no span. -/
theorem not_hasSpan_of_undoubled {cs : List Char} (h : Text.Undoubled '{' cs) : ¬HasSpan cs := by
  rintro ⟨before, inner, after, rfl⟩
  exact h ⟨before, inner ++ (closing ++ after), by simp [opening]⟩

/-- A text is cut at its first opening. -/
theorem cut?_opening {before : List Char} (hopen : Text.Precedes '{' before) (rest : List Char) :
    Text.cut? opening (before ++ (opening ++ rest)) = some (before, rest) :=
  Text.cut?_doubled_eq_some_iff.mpr ⟨rfl, hopen⟩

/-- A span is cut at its first closing. -/
theorem cut?_closing {inner : List Char} (hclose : Text.Precedes '}' inner) (after : List Char) :
    Text.cut? closing (inner ++ (closing ++ after)) = some (inner, after) :=
  Text.cut?_doubled_eq_some_iff.mpr ⟨rfl, hclose⟩

/-- The two cuts that find a span succeed on every text that has one. -/
theorem HasSpan.exists_cuts {cs : List Char} (h : HasSpan cs) :
    ∃ before rest inner after, Text.cut? opening cs = some (before, rest) ∧
      Text.cut? closing rest = some (inner, after) := by
  obtain ⟨front, middle, back, rfl⟩ := h
  cases hopen : Text.cut? opening (front ++ (opening ++ (middle ++ (closing ++ back)))) with
  | none =>
      refine absurd ?_ (Text.cut?_eq_none_iff.mp hopen)
      exact ⟨front, middle ++ (closing ++ back), by simp⟩
  | some cut =>
      obtain ⟨before, rest⟩ := cut
      obtain ⟨hcs, hbefore⟩ := Text.cut?_doubled_eq_some_iff.mp hopen
      have hrest : middle ++ (closing ++ back) <:+ rest := hbefore.suffix hcs.symm
      cases hclose : Text.cut? closing rest with
      | none =>
          have hclosing : closing <:+: middle ++ (closing ++ back) := ⟨middle, back, by simp⟩
          exact absurd (hclosing.trans hrest.isInfix) (Text.cut?_eq_none_iff.mp hclose)
      | some cut => exact ⟨before, rest, cut.1, cut.2, rfl, hclose⟩

/-- A text with a span has a first one. -/
theorem HasSpan.exists_first {cs : List Char} (h : HasSpan cs) :
    ∃ before inner after, cs = before ++ (opening ++ (inner ++ (closing ++ after))) ∧
      Text.Precedes '{' before ∧ Text.Precedes '}' inner := by
  obtain ⟨before, rest, inner, after, hopen, hclose⟩ := h.exists_cuts
  obtain ⟨rfl, hbefore⟩ := Text.cut?_doubled_eq_some_iff.mp hopen
  obtain ⟨rfl, hinner⟩ := Text.cut?_doubled_eq_some_iff.mp hclose
  exact ⟨before, inner, after, rfl, hbefore, hinner⟩

/-- A text without a span, or a first span and a text behind it. -/
@[elab_as_elim]
theorem spanInduction {motive : List Char → Prop} (plain : ∀ cs, ¬HasSpan cs → motive cs)
    (span : ∀ before inner after, Text.Precedes '{' before → Text.Precedes '}' inner →
      motive after → motive (before ++ (opening ++ (inner ++ (closing ++ after)))))
    (cs : List Char) : motive cs := by
  by_cases h : HasSpan cs
  · obtain ⟨before, inner, after, hcs, hbefore, hinner⟩ := h.exists_first
    have hshorter : after.length < cs.length := by
      rw [hcs]
      simp [opening, closing]
      omega
    rw [hcs]
    exact span before inner after hbefore hinner (spanInduction plain span after)
  · exact plain cs h
termination_by cs.length

/-! ## the pieces -/

/-- A text without spans is one plain piece. -/
theorem piecesSteps_of_not_hasSpan {cs : List Char} (h : ¬HasSpan cs) (steps : Nat) :
    piecesSteps steps cs = [.plain cs] := by
  cases steps with
  | zero => rfl
  | succ steps =>
      rw [piecesSteps]
      split
      · rfl
      · next before rest hopen =>
          split
          · rfl
          · next inner after hclose =>
              refine absurd ⟨before, inner, after, ?_⟩ h
              simp [Text.eq_of_cut? hopen, Text.eq_of_cut? hclose]

/-- A first span is a plain piece, the span and the pieces behind it. -/
theorem piecesSteps_span {before inner : List Char} (hopen : Text.Precedes '{' before)
    (hclose : Text.Precedes '}' inner) (after : List Char) (steps : Nat) :
    piecesSteps (steps + 1) (before ++ (opening ++ (inner ++ (closing ++ after)))) =
      .plain before :: .span inner :: piecesSteps steps after := by
  rw [piecesSteps, cut?_opening hopen]
  simp only [cut?_closing hclose]

/-- As many steps as characters are enough. -/
theorem piecesSteps_eq {cs : List Char} {steps : Nat} (h : cs.length ≤ steps) :
    piecesSteps steps cs = pieces cs := by
  rw [pieces]
  suffices ∀ more, cs.length ≤ more → piecesSteps steps cs = piecesSteps more cs from
    this _ (Nat.le_refl _)
  induction cs using spanInduction generalizing steps with
  | plain cs hcs =>
      intro more _
      rw [piecesSteps_of_not_hasSpan hcs, piecesSteps_of_not_hasSpan hcs]
  | span before inner after hopen hclose ih =>
      intro more hmore
      simp only [opening, closing, List.length_append, List.length_cons, List.length_nil]
        at h hmore
      obtain ⟨steps, rfl⟩ : ∃ n, steps = n + 1 := ⟨steps - 1, by omega⟩
      obtain ⟨more, rfl⟩ : ∃ n, more = n + 1 := ⟨more - 1, by omega⟩
      rw [piecesSteps_span hopen hclose, piecesSteps_span hopen hclose,
        ih (by omega) more (by omega)]

/-- A text without spans is one plain piece. -/
theorem pieces_of_not_hasSpan {cs : List Char} (h : ¬HasSpan cs) : pieces cs = [.plain cs] :=
  piecesSteps_of_not_hasSpan h _

/-- The pieces of a text, by its first span. -/
theorem pieces_span {before inner : List Char} (hopen : Text.Precedes '{' before)
    (hclose : Text.Precedes '}' inner) (after : List Char) :
    pieces (before ++ (opening ++ (inner ++ (closing ++ after)))) =
      .plain before :: .span inner :: pieces after := by
  have hsteps := piecesSteps_span hopen hclose after
    (before ++ (opening ++ (inner ++ (closing ++ after)))).length
  rwa [piecesSteps_eq (Nat.le_succ _), piecesSteps_eq (by simp [opening, closing]; omega)] at hsteps

/-! ## rendering and searching -/

section Rendering

variable (resolver : Resolver) (context : Context)

/-- A text without spans is rendered to itself. -/
theorem render_of_not_hasSpan {cs : List Char} (h : ¬HasSpan cs) :
    render resolver context cs = cs := by
  rw [render, pieces_of_not_hasSpan h]
  simp [writePiece]

/-- A text is rendered span by span. -/
theorem render_span {before inner : List Char} (hopen : Text.Precedes '{' before)
    (hclose : Text.Precedes '}' inner) (after : List Char) :
    render resolver context (before ++ (opening ++ (inner ++ (closing ++ after)))) =
      before ++ (((resolver.resolve context (Text.trim inner)).elim "" Value.display).toList ++
        render resolver context after) := by
  rw [render, pieces_span hopen hclose]
  simp [writePiece, render]

end Rendering

/-- A text without spans has no expressions. -/
theorem expressions_of_not_hasSpan {cs : List Char} (h : ¬HasSpan cs) : expressions cs = [] := by
  rw [expressions, pieces_of_not_hasSpan h]
  rfl

/-- The expressions of a text, by its first span. -/
theorem expressions_span {before inner : List Char} (hopen : Text.Precedes '{' before)
    (hclose : Text.Precedes '}' inner) (after : List Char) :
    expressions (before ++ (opening ++ (inner ++ (closing ++ after)))) =
      (if (Text.trim inner).isEmpty then [] else [Text.trim inner]) ++ expressions after := by
  rw [expressions, pieces_span hopen hclose]
  by_cases hblank : Text.trim inner = []
  · simp [hblank, expressions]
  · simp [hblank, expressions]

end Runbook.Template

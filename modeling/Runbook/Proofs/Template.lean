import Runbook.Proofs.Template.Spans
import Runbook.Proofs.Text.Blank

/-!
# Runbook.Proofs.Template

Which texts a rendering looks up. The spans of a value are told by the value alone
(`Template.valueSpans`). A condition or the source of a loop looks up one text if it is a single
span or has no span, and else its spans and the text that they fill in (`Template.lookUps`). Two
renderings that find the same under these texts are the same (`renderEntries_congr`,
`resolveText_congr`).
-/

namespace Runbook.Template

/-! ## the spans of a value -/

/-- The expressions in the spans of a text, in their order. -/
def spans (cs : List Char) : List (List Char) :=
  (pieces cs).filterMap fun
    | .plain _ => none
    | .span inner => some (Text.trim inner)

/-- A span among the pieces of a text is one of its spans. -/
theorem mem_spans {cs inner : List Char} (h : .span inner ∈ pieces cs) :
    Text.trim inner ∈ spans cs :=
  List.mem_filterMap.mpr ⟨.span inner, h, rfl⟩

mutual

/-- The expressions in the spans of the strings of a value, the keys apart. -/
def valueSpans : Value → List (List Char)
  | .string s => spans s.toList
  | .array items => itemSpans items
  | .object entries => entrySpans entries
  | .null | .bool _ | .number _ => []
termination_by structural v => v

/-- The expressions in the spans of some values. -/
def itemSpans : List Value → List (List Char)
  | [] => []
  | v :: vs => valueSpans v ++ itemSpans vs
termination_by structural vs => vs

/-- The expressions in the spans of the values of a mapping. -/
def entrySpans : List (String × Value) → List (List Char)
  | [] => []
  | (_, v) :: es => valueSpans v ++ entrySpans es
termination_by structural es => es

end

/-- The texts that a condition or the source of a loop looks up. -/
def lookUps (resolver : Resolver) (context : Context) (cs : List Char) : List (List Char) :=
  match single? cs with
  | some expression => [expression]
  | none =>
    if Text.occurs opening cs then renderData resolver context cs :: spans cs else [cs]

/-! ## renderings that find the same -/

section Congruence

variable {first second : Resolver} {context other : Context}

/-- Resolvers that agree on the spans of a text write its pieces alike. -/
theorem writePiece_congr {piece : Piece} {cs : List Char} (hpiece : piece ∈ pieces cs)
    (h : ∀ e ∈ spans cs, first.resolve context e = second.resolve other e)
    (write : Option Value → List Char) :
    writePiece first context write piece = writePiece second other write piece := by
  cases piece with
  | plain cs => rfl
  | span inner => rw [writePiece, writePiece, h _ (mem_spans hpiece)]

/-- So they render the text alike. -/
theorem render_congr {cs : List Char}
    (h : ∀ e ∈ spans cs, first.resolve context e = second.resolve other e) :
    render first context cs = render second other cs :=
  List.flatMap_congr fun _ hpiece => writePiece_congr hpiece h _

/-- They also render it alike as data. -/
theorem renderData_congr {cs : List Char}
    (h : ∀ e ∈ spans cs, first.resolve context e = second.resolve other e) :
    renderData first context cs = renderData second other cs :=
  List.flatMap_congr fun _ hpiece => writePiece_congr hpiece h _

mutual

/-- A value is rendered alike if its spans are resolved alike. -/
theorem renderValue_congr (v : Value)
    (h : ∀ e ∈ valueSpans v, first.resolve context e = second.resolve other e) :
    renderValue first context v = renderValue second other v := by
  cases v with
  | null | bool b | number n => rfl
  | string s => rw [renderValue, renderValue, renderString, renderString, render_congr h]
  | array items => rw [renderValue, renderValue, renderItems_congr items h]
  | object entries => rw [renderValue, renderValue, renderEntries_congr entries h]

/-- So are items. -/
theorem renderItems_congr (items : List Value)
    (h : ∀ e ∈ itemSpans items, first.resolve context e = second.resolve other e) :
    renderItems first context items = renderItems second other items := by
  cases items with
  | nil => rfl
  | cons v vs =>
      rw [itemSpans, List.forall_mem_append] at h
      rw [renderItems, renderItems, renderValue_congr v h.1, renderItems_congr vs h.2]

/-- So are entries. -/
theorem renderEntries_congr (entries : List (String × Value))
    (h : ∀ e ∈ entrySpans entries, first.resolve context e = second.resolve other e) :
    renderEntries first context entries = renderEntries second other entries := by
  cases entries with
  | nil => rfl
  | cons entry es =>
      obtain ⟨k, v⟩ := entry
      rw [entrySpans, List.forall_mem_append] at h
      rw [renderEntries, renderEntries, renderValue_congr v h.1, renderEntries_congr es h.2]

end

/-- A text is resolved alike if all it looks up is. -/
theorem resolveText_congr {cs : List Char}
    (h : ∀ e ∈ lookUps first context cs, first.resolve context e = second.resolve other e) :
    resolveText first context cs = resolveText second other cs := by
  unfold lookUps at h
  unfold resolveText
  cases hsingle : single? cs with
  | some expression =>
      rw [hsingle] at h
      exact h expression List.mem_cons_self
  | none =>
      simp only [hsingle] at h
      by_cases hspans : Text.occurs opening cs = true
      · simp only [hspans, if_true, List.forall_mem_cons] at h ⊢
        rw [h.1, renderData_congr h.2, render_congr h.2]
      · simp only [hspans, Bool.false_eq_true, if_false, List.forall_mem_singleton] at h ⊢
        exact h

end Congruence

/-! ## a single span -/

/-- A text in braces, in which no two closing braces stand side by side, is the only span if no span
opens in front of it or behind it. -/
theorem pieces_around {before inner after : List Char} (hbefore : '{' ∉ before)
    (hinner : Text.Undoubled '}' inner) (hlast : inner.getLast? ≠ some '}')
    (hafter : Text.cut? opening after = none) :
    pieces (before ++ (opening ++ inner ++ closing ++ after)) =
      [.plain before, .span inner, .plain after] := by
  have hopen : Text.Precedes '{' before :=
    Text.Undoubled.append (Text.undoubled_of_notMem hbefore) (by decide) fun hlast =>
      absurd (List.mem_of_getLast? hlast) hbefore
  have hclose : Text.Precedes '}' inner := hinner.precedes hlast
  have hplain : ¬HasSpan after := not_hasSpan_of_undoubled (Text.cut?_eq_none_iff.mp hafter)
  rw [List.append_assoc, List.append_assoc, pieces_span hopen hclose, pieces_of_not_hasSpan hplain]

/-- A span at the front of a text that has no other. -/
theorem pieces_front {inner after : List Char} (hinner : Text.Undoubled '}' inner)
    (hlast : inner.getLast? ≠ some '}') (hafter : Text.cut? opening after = none) :
    pieces (opening ++ inner ++ closing ++ after) = [.plain [], .span inner, .plain after] := by
  simpa using pieces_around List.not_mem_nil hinner hlast hafter

/-- A text that is one span. -/
theorem pieces_enclosed {inner : List Char} (hinner : Text.Undoubled '}' inner)
    (hlast : inner.getLast? ≠ some '}') :
    pieces (opening ++ inner ++ closing) = [.plain [], .span inner, .plain []] := by
  have hnone : Text.cut? opening [] = none := rfl
  simpa using pieces_front hinner hlast hnone

/-- A text as the expression of a span. -/
def spanned (cs : List Char) : List Char := opening ++ (' ' :: (cs ++ [' '])) ++ closing

/-- A span alone renders to its value, or to nothing. -/
theorem render_spanned {cs : List Char} (hsolid : Text.Solid cs)
    (hclose : Text.Undoubled '}' cs) (resolver : Resolver) (context : Context) :
    render resolver context (spanned cs) =
      ((resolver.resolve context cs).elim "" Value.display).toList := by
  have hspace : Text.Undoubled '}' [' '] := Text.undoubled_of_notMem (by decide)
  have hback : Text.Undoubled '}' (cs ++ [' ']) := hclose.append hspace (by simp)
  have hinner : Text.Undoubled '}' (' ' :: (cs ++ [' '])) := hspace.append hback (by simp)
  have htrim : Text.trim (' ' :: (cs ++ [' '])) = cs :=
    Text.trim_padded Text.blanks_space Text.blanks_space hsolid
  have hpieces : pieces (spanned cs) = [.plain [], .span (' ' :: (cs ++ [' '])), .plain []] :=
    pieces_enclosed hinner (by simp [List.getLast?_cons])
  rw [render, hpieces]
  simp [writePiece, htrim]

/-- A single span: braces around a text in which no braces are doubled. -/
theorem single?_eq_some_iff {cs e : List Char} :
    single? cs = some e ↔ ∃ inner, Text.trim cs = opening ++ inner ++ closing ∧
      Text.Undoubled '{' inner ∧ Text.Undoubled '}' inner ∧ Text.trim inner = e := by
  have hdoubled : ∀ inner : List Char,
      (Text.occurs opening inner || Text.occurs closing inner) = false ↔
        Text.Undoubled '{' inner ∧ Text.Undoubled '}' inner := by
    intro inner
    rw [Bool.or_eq_false_iff]
    exact and_congr Text.occurs_doubled_eq_false_iff Text.occurs_doubled_eq_false_iff
  simp only [single?, Option.bind_eq_bind, Option.bind_eq_some_iff, Text.dropLead?_eq_some_iff,
    Text.dropTail?_eq_some_iff, Option.pure_def]
  constructor
  · rintro ⟨rest, hlead, inner, rfl, h⟩
    obtain ⟨hplain, he⟩ := Option.ite_none_left_eq_some.mp h
    obtain ⟨hopen, hclose⟩ := (hdoubled inner).mp (Bool.eq_false_iff.mpr hplain)
    exact ⟨inner, by rw [hlead, List.append_assoc], hopen, hclose, Option.some.inj he⟩
  · rintro ⟨inner, hcs, hopen, hclose, rfl⟩
    refine ⟨inner ++ closing, by rw [hcs, List.append_assoc], inner, rfl, ?_⟩
    rw [(hdoubled inner).mpr ⟨hopen, hclose⟩]
    rfl

/-- A text without doubled opening braces is no span. -/
theorem single?_of_undoubled {cs : List Char} (h : Text.Undoubled '{' cs) :
    single? cs = none := by
  cases hsingle : single? cs with
  | none => rfl
  | some e =>
      obtain ⟨inner, htrim, -⟩ := single?_eq_some_iff.mp hsingle
      obtain ⟨pre, post, -, -, hcs⟩ := Text.exists_padding cs
      rw [htrim] at hcs
      exact absurd ⟨pre, inner ++ closing ++ post, by simp [hcs, opening]⟩ h

end Runbook.Template

import Runbook.Proofs.Resolver
import Runbook.Proofs.Template

/-!
# Runbook.Proofs.Template.Single

Texts that are a single span. There are two ways to see a span: the braces are taken off both ends
of the text (`single?`), or the first closing braces behind the opening ones are looked for
(`pieces`). They agree on a single span (`IsOneSpan`) unless its expression ends with a brace that
stands right in front of the closing ones: of three closing braces the second way takes the first
two (`isOneSpan_iff`).
-/

namespace Runbook.Template

/-- The text, without the blanks around it, is one span with the expression, and is rendered and
searched as that. -/
structure IsOneSpan (cs e : List Char) : Prop where
  /-- The span is all there is. -/
  pieces : ∃ inner, pieces (Text.trim cs) = [.plain [], .span inner, .plain []] ∧
    Text.trim inner = e
  /-- Rendering gives the display text of what the text resolves to. -/
  rendered : ∀ resolver context,
    renderString resolver context (String.ofList (Text.trim cs)) =
      (resolveText resolver context cs).elim "" Value.display
  /-- The expression is the only one, if it is not blank. -/
  expressions : expressions cs = if e.isEmpty then [] else [e]

/-! ## three closing braces -/

/-- Three braces end a span just when its inner text ends with one. -/
theorem closing_three_suffix_iff (inner : List Char) :
    ['}', '}', '}'] <:+ opening ++ inner ++ closing ↔ inner.getLast? = some '}' := by
  constructor
  · rintro ⟨front, hfront⟩
    have hsplit : front ++ ['}'] ++ closing = opening ++ inner ++ closing := by
      rw [← hfront, closing]
      simp
    have hlast := congrArg List.getLast? (List.append_cancel_right hsplit)
    cases hinner : inner.getLast? with
    | none =>
        rw [List.getLast?_eq_none_iff.mp hinner] at hlast
        simp [opening] at hlast
    | some c => simpa [List.getLast?_append, hinner, eq_comm] using hlast
  · intro hlast
    obtain ⟨front, rfl⟩ := List.getLast?_eq_some_iff.mp hlast
    exact ⟨opening ++ front, by simp [closing]⟩

/-- With three closing braces the last one is left over. -/
theorem pieces_three_closing {front : List Char} (hclose : Text.Undoubled '}' (front ++ ['}'])) :
    pieces (opening ++ (front ++ ['}']) ++ closing) = [.plain [], .span front, .plain ['}']] := by
  have hfront : Text.Undoubled '}' front := fun h => hclose (h.trans (List.infix_append' [] _ _))
  have hlast : front.getLast? ≠ some '}' := by
    intro hlast
    obtain ⟨more, rfl⟩ := List.getLast?_eq_some_iff.mp hlast
    exact hclose ⟨more, [], by simp⟩
  have hnone : Text.cut? opening ['}'] = none := rfl
  simpa [closing] using pieces_front hfront hlast hnone

/-! ## a span and nothing else -/

section Enclosed

variable {cs inner : List Char} (htrim : Text.trim cs = opening ++ inner ++ closing)
  (hclose : Text.Undoubled '}' inner) (hlast : inner.getLast? ≠ some '}')
include htrim hclose hlast

/-- Without a third brace the scan takes the text as the one span that it is. -/
theorem pieces_trim : pieces (Text.trim cs) = [.plain [], .span inner, .plain []] := by
  rw [htrim]
  exact pieces_enclosed hclose hlast

/-- Its expression is then the trimmed inner text. -/
theorem expressions_eq :
    expressions cs = if (Text.trim inner).isEmpty then [] else [Text.trim inner] := by
  obtain ⟨pre, post, hpre, hpost, hcs⟩ := Text.exists_padding cs
  have hafter : Text.cut? opening post = none :=
    Text.cut?_eq_none_of_notMem (notMem_of_blanks (by decide) hpost) ['{']
  have haround := pieces_around (notMem_of_blanks (by decide) hpre) hclose hlast hafter
  rw [← htrim, ← hcs] at haround
  rw [expressions, haround]
  by_cases hblank : Text.trim inner = []
  · simp [hblank]
  · simp [hblank]

end Enclosed

/-- **When the two ways to see a span agree.** A text that is a single span is seen as one by the
scan for spans, and is rendered and searched as one, exactly if it does not end with three closing
braces. -/
theorem isOneSpan_iff {cs e : List Char} (h : single? cs = some e) :
    IsOneSpan cs e ↔ ¬['}', '}', '}'] <:+ Text.trim cs := by
  obtain ⟨inner, htrim, -, hclose, he⟩ := single?_eq_some_iff.mp h
  rw [htrim, closing_three_suffix_iff]
  constructor
  · rintro ⟨⟨inner', hpieces, -⟩, -, -⟩ hlast
    obtain ⟨front, rfl⟩ := List.getLast?_eq_some_iff.mp hlast
    rw [htrim, pieces_three_closing hclose] at hpieces
    simp at hpieces
  · intro hlast
    have hpieces := pieces_trim htrim hclose hlast
    refine ⟨⟨inner, hpieces, he⟩, fun resolver context => ?_, ?_⟩
    · rw [renderString, String.toList_ofList, render, hpieces, resolveText, h, ← he]
      simp [writePiece]
    · rw [expressions_eq htrim hclose hlast, he]

/-- A span around a name, with blanks outside. -/
theorem isOneSpan_iff_region :
    single? " \x7b\x7b region \x7d\x7d\n".toList = some "region".toList ∧
      IsOneSpan " \x7b\x7b region \x7d\x7d\n".toList "region".toList := by
  have hsingle : single? " \x7b\x7b region \x7d\x7d\n".toList = some "region".toList := by decide
  exact ⟨hsingle, (isOneSpan_iff hsingle).mpr (by decide)⟩

/-- A mapping in a span, with its closing brace at those of the span: taken off both ends, the
braces leave the mapping, but the scan for spans stops one brace too early. -/
theorem mapping_not_isOneSpan :
    single? "\x7b\x7b \x7b\"a\":1\x7d\x7d\x7d".toList = some "\x7b\"a\":1\x7d".toList ∧
      expressions "\x7b\x7b \x7b\"a\":1\x7d\x7d\x7d".toList = ["\x7b\"a\":1".toList] ∧
      ¬IsOneSpan "\x7b\x7b \x7b\"a\":1\x7d\x7d\x7d".toList "\x7b\"a\":1\x7d".toList := by
  have hexpressions : expressions "\x7b\x7b \x7b\"a\":1\x7d\x7d\x7d".toList =
      ["\x7b\"a\":1".toList] := by decide
  refine ⟨by decide, hexpressions, fun h => ?_⟩
  have hone := h.expressions
  rw [hexpressions] at hone
  revert hone
  decide

end Runbook.Template

import Mathlib.Data.List.Forall2
import Runbook.Proofs.Template.Spans
import Runbook.Proofs.Value.Layout

/-!
# Runbook.Proofs.Template.Rendering

Rendering keeps the shape of a value, and puts texts together as they were taken apart. Only the
strings of a value change, each into its own rendering (`renderValue_sameShape`). A text behind
another one is rendered as if it stood alone, if the first one leaves no span open (`IsClosed`) and
no doubled brace begins in it and ends behind it (`render_append`). What a span resolves to is
written as it is: the rendering of a text is not searched for spans.
-/

namespace Runbook

/-- The second value is the first one with other strings: keys, numbers of items, and values without
parts are the same, and the strings in the same place are related. -/
inductive Value.SameShape (related : String → String → Prop) : Value → Value → Prop where
  | null : SameShape related .null .null
  | bool (b : Bool) : SameShape related (.bool b) (.bool b)
  | number (n : Number) : SameShape related (.number n) (.number n)
  | string {s t : String} (h : related s t) : SameShape related (.string s) (.string t)
  | array {items items' : List Value} (h : List.Forall₂ (SameShape related) items items') :
      SameShape related (.array items) (.array items')
  | object {entries entries' : Entries} (hkeys : entries.keys = entries'.keys)
      (h : List.Forall₂ (SameShape related) (entries.map (·.2)) (entries'.map (·.2))) :
      SameShape related (.object entries) (.object entries')

namespace Template

variable (resolver : Resolver) (context : Context)

/-! ## values -/

/-- Items are rendered one by one. -/
theorem renderItems_eq_map (items : List Value) :
    renderItems resolver context items = items.map (renderValue resolver context) := by
  induction items with
  | nil => rfl
  | cons v vs ih => rw [renderItems, ih, List.map_cons]

/-- Entries are rendered one by one, under the keys they have. -/
theorem renderEntries_eq_map (entries : List (String × Value)) :
    renderEntries resolver context entries =
      entries.map fun (k, v) => (k, renderValue resolver context v) := by
  induction entries with
  | nil => rfl
  | cons entry es ih => rw [renderEntries, ih, List.map_cons]

/-- Rendering keeps the shape of a value and renders each of its strings. -/
theorem renderValue_sameShape (v : Value) :
    Value.SameShape (fun s t => t = renderString resolver context s) v
      (renderValue resolver context v) := by
  induction v using Value.induction with
  | null => exact .null
  | bool b => exact .bool b
  | number n => exact .number n
  | string s => exact .string rfl
  | array items ih =>
      rw [renderValue, renderItems_eq_map]
      exact .array (List.forall₂_map_right_iff.mpr (List.forall₂_same.mpr ih))
  | object entries ih =>
      rw [renderValue, renderEntries_eq_map]
      refine .object (by simp [Entries.keys]) ?_
      rw [List.map_map, List.forall₂_map_left_iff, List.forall₂_map_right_iff]
      exact List.forall₂_same.mpr ih

/-- A value without doubled opening braces in its strings is its own rendering. -/
theorem renderValue_of_undoubled {v : Value}
    (h : ∀ s ∈ v.strings, Text.Undoubled '{' s.toList) : renderValue resolver context v = v := by
  induction v using Value.induction with
  | null | bool b | number n => rfl
  | string s =>
      have hs : Text.Undoubled '{' s.toList := h s (List.mem_singleton.mpr rfl)
      rw [renderValue, renderString, render_of_not_hasSpan _ _ (not_hasSpan_of_undoubled hs),
        String.ofList_toList]
  | array items ih =>
      have hitems : ∀ v ∈ items, renderValue resolver context v = v := fun v hv =>
        ih v hv fun s hs => h s (Value.strings_subset_of_item hv hs)
      rw [renderValue, renderItems_eq_map, List.map_congr_left hitems, List.map_id']
  | object entries ih =>
      have hentries : ∀ e ∈ entries, (e.1, renderValue resolver context e.2) = e := fun e he => by
        rw [ih e he fun s hs => h s
          (Value.strings_subset_of_entry he (List.mem_cons_of_mem _ hs))]
      rw [renderValue, renderEntries_eq_map, List.map_congr_left hentries, List.map_id']

/-- Items without spans are rendered to themselves. -/
theorem renderItems_of_undoubled {items : List Value}
    (h : ∀ v ∈ items, ∀ s ∈ v.strings, Text.Undoubled '{' s.toList) :
    renderItems resolver context items = items := by
  have hitems : ∀ v ∈ items, renderValue resolver context v = v := fun v hv =>
    renderValue_of_undoubled resolver context (h v hv)
  rw [renderItems_eq_map, List.map_congr_left hitems, List.map_id']

/-! ## texts behind each other -/

/-- Every doubled opening brace that is found from left to right is closed. -/
inductive IsClosed : List Char → Prop where
  | plain {cs : List Char} (h : Text.Undoubled '{' cs) : IsClosed cs
  | span {before inner after : List Char} (hopen : Text.Precedes '{' before)
      (hclose : Text.Precedes '}' inner) (hrest : IsClosed after) :
      IsClosed (before ++ (opening ++ (inner ++ (closing ++ after))))

/-- A text without doubled opening braces only adds to what stands in front of the first span. -/
theorem render_undoubled_append {first second : List Char} (hfirst : Text.Undoubled '{' first)
    (hseam : first.getLast? = some '{' → second.head? ≠ some '{') :
    render resolver context (first ++ second) = first ++ render resolver context second := by
  by_cases hspan : HasSpan second
  · obtain ⟨before, inner, after, rfl, hopen, hclose⟩ := hspan.exists_first
    have hfront : Text.Precedes '{' (first ++ before) := by
      refine hfirst.append_precedes hopen fun hlast => ?_
      cases before with
      | nil => exact hseam hlast
      | cons c before => exact hseam hlast
    rw [render_span resolver context hopen hclose, ← List.append_assoc first,
      render_span resolver context hfront hclose, List.append_assoc]
  · have hwhole : ¬HasSpan (first ++ second) := by
      intro h
      obtain ⟨before, rest, inner, after, hopen, hclose⟩ := h.exists_cuts
      rw [opening, hfirst.cut?_seam hseam] at hopen
      obtain ⟨⟨front, rest'⟩, hcut, heq⟩ := Option.map_eq_some_iff.mp hopen
      obtain ⟨-, rfl⟩ := Prod.mk.inj heq
      refine hspan ⟨front, inner, after, ?_⟩
      rw [Text.eq_of_cut? hcut, Text.eq_of_cut? hclose]
      simp [opening]
    rw [render_of_not_hasSpan resolver context hwhole, render_of_not_hasSpan resolver context hspan]

/-- Two texts are rendered apart if no span starts in one and ends in the other. -/
theorem render_append {first second : List Char} (hfirst : IsClosed first)
    (hseam : ¬(first.getLast? = some '{' ∧ second.head? = some '{')) :
    render resolver context (first ++ second) =
      render resolver context first ++ render resolver context second := by
  induction hfirst with
  | plain h =>
      rw [render_undoubled_append resolver context h fun hlast hhead => hseam ⟨hlast, hhead⟩,
        render_of_not_hasSpan resolver context (not_hasSpan_of_undoubled h)]
  | @span before inner after hopen hclose hrest ih =>
      have hseam' : ¬(after.getLast? = some '{' ∧ second.head? = some '{') := by
        rintro ⟨hlast, hhead⟩
        exact hseam ⟨by simp [List.getLast?_append, hlast], hhead⟩
      have hassoc : before ++ (opening ++ (inner ++ (closing ++ after))) ++ second =
          before ++ (opening ++ (inner ++ (closing ++ (after ++ second)))) := by
        simp
      rw [hassoc, render_span resolver context hopen hclose,
        render_span resolver context hopen hclose, ih hseam']
      simp

/-- A span alone renders to its value, or to nothing. -/
theorem render_lone_span {inner : List Char} (hclose : Text.Precedes '}' inner) :
    render resolver context (opening ++ (inner ++ closing)) =
      ((resolver.resolve context (Text.trim inner)).elim "" Value.display).toList := by
  have hopen : Text.Precedes '{' [] := by decide
  have hnone : ¬HasSpan [] := not_hasSpan_of_undoubled (by decide)
  have hspan := render_span resolver context hopen hclose []
  rw [render_of_not_hasSpan resolver context hnone] at hspan
  simpa using hspan

/-- **Rendering goes once through a value and through each of its texts.** The rendered value has
the shape of the value, and in place of every string its rendering. The rendering of two texts
behind each other is that of the first and then that of the second, if the first closes all its
spans and no doubled brace stands across the seam; a text without a span is its own rendering; and a
span alone is rendered as the display text of its value, whatever braces are in that. -/
theorem rendering_goes_once :
    (∀ v, Value.SameShape (fun s t => t = renderString resolver context s) v
      (renderValue resolver context v)) ∧
    (∀ a b : String, IsClosed a.toList →
      ¬(a.toList.getLast? = some '{' ∧ b.toList.head? = some '{') →
      renderString resolver context (a ++ b) =
        renderString resolver context a ++ renderString resolver context b) ∧
    (∀ s : String, ¬HasSpan s.toList → renderString resolver context s = s) ∧
    (∀ (s : String) (inner : List Char), s.toList = opening ++ (inner ++ closing) →
      Text.Precedes '}' inner →
      renderString resolver context s =
        (resolver.resolve context (Text.trim inner)).elim "" Value.display) := by
  refine ⟨renderValue_sameShape resolver context, fun a b ha hseam => ?_, fun s h => ?_,
    fun s inner hs hclose => ?_⟩
  · rw [renderString, String.toList_append, render_append resolver context ha hseam,
      String.ofList_append]
    rfl
  · rw [renderString, render_of_not_hasSpan resolver context h, String.ofList_toList]
  · rw [renderString, hs, render_lone_span resolver context hclose, String.ofList_toList]

/-- A resolver that has a span for every text. -/
def quoting : Resolver := ⟨"quoting", fun _ _ => some (.string "\x7b\x7b x \x7d\x7d")⟩

/-- A value that is itself a span is not rendered again, and a single brace on each side of a seam
is no obstacle unless both open. -/
theorem rendering_goes_once_quoting :
    IsClosed "a \x7b\x7b x \x7d\x7d\x7b".toList ∧
      renderString quoting ⟨[]⟩ ("a \x7b\x7b x \x7d\x7d\x7b" ++ "\x7d\x7b\x7b y \x7d\x7d") =
        "a \x7b\x7b x \x7d\x7d\x7b" ++ "\x7d\x7b\x7b x \x7d\x7d" := by
  obtain ⟨-, happend, -, -⟩ := rendering_goes_once quoting ⟨[]⟩
  have hspan : IsClosed (['a', ' '] ++ (opening ++ ([' ', 'x', ' '] ++ (closing ++ ['{'])))) :=
    .span (by decide) (by decide) (.plain (by decide))
  have hclosed : IsClosed "a \x7b\x7b x \x7d\x7d\x7b".toList := hspan
  refine ⟨hclosed, ?_⟩
  rw [happend _ _ hclosed (by decide)]
  decide +kernel

end Template

end Runbook

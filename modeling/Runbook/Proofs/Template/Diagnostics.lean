import Runbook.Proofs.Template.Spans
import Runbook.Proofs.Value.Layout

/-!
# Runbook.Proofs.Template.Diagnostics

The spans that are reported as unresolved are the ones that a rendering drops. `Renders` tells a
rendering without the scan for pieces: what is rendered into what, and which spans are replaced on
the way, in the order of the text (`Replacement`). Every value is rendered by such a list of
replacements (`exists_renders`), and whatever the list, its replacements without a value are the
report on the value (`Renders.unresolved_eq`).
-/

namespace Runbook.Template

/-- A span that is replaced: the place of its string, its expression, and its value. -/
structure Replacement where
  /-- The keys and indices that lead to the string. -/
  place : String
  /-- The text between the braces, without blanks at its ends. -/
  expression : List Char
  /-- What stands in place of the span; without a value nothing does. -/
  value : Option Value

/-- The report on a replacement, if an expression was replaced by nothing. -/
def Replacement.missing? (r : Replacement) : Option Unresolved :=
  if r.expression.isEmpty || r.value.isSome then none
  else some ⟨r.place, String.ofList r.expression⟩

/-- What is rendered at a place. -/
inductive Part where
  /-- The characters of a string, or what is left of them. -/
  | text (cs : List Char)
  /-- A value. -/
  | value (v : Value)
  /-- The items of a list from an index on. -/
  | items (index : Nat) (items : List Value)
  /-- Some entries of a mapping. -/
  | entries (entries : List (String × Value))

section Rendering

variable (resolver : Resolver) (context : Context)

/-- The part at the place is rendered into the other part, by the replacements in their order. -/
inductive Renders : String → Part → List Replacement → Part → Prop where
  | plain {place : String} {cs : List Char} (h : ¬HasSpan cs) :
      Renders place (.text cs) [] (.text cs)
  | span {place : String} {before inner after out : List Char} {log : List Replacement}
      {value : Option Value} (hopen : Text.Precedes '{' before) (hclose : Text.Precedes '}' inner)
      (hvalue : resolver.resolve context (Text.trim inner) = value)
      (hrest : Renders place (.text after) log (.text out)) :
      Renders place (.text (before ++ (opening ++ (inner ++ (closing ++ after)))))
        (⟨place, Text.trim inner, value⟩ :: log)
        (.text (before ++ ((value.elim "" Value.display).toList ++ out)))
  | null {place : String} : Renders place (.value .null) [] (.value .null)
  | bool {place : String} (b : Bool) : Renders place (.value (.bool b)) [] (.value (.bool b))
  | number {place : String} (n : Number) :
      Renders place (.value (.number n)) [] (.value (.number n))
  | string {place s : String} {log : List Replacement} {out : List Char}
      (h : Renders place (.text s.toList) log (.text out)) :
      Renders place (.value (.string s)) log (.value (.string (String.ofList out)))
  | array {place : String} {vs vs' : List Value} {log : List Replacement}
      (h : Renders place (.items 0 vs) log (.items 0 vs')) :
      Renders place (.value (.array vs)) log (.value (.array vs'))
  | object {place : String} {es es' : List (String × Value)} {log : List Replacement}
      (h : Renders place (.entries es) log (.entries es')) :
      Renders place (.value (.object es)) log (.value (.object es'))
  | noItems {place : String} {index : Nat} :
      Renders place (.items index []) [] (.items index [])
  | item {place : String} {index : Nat} {v v' : Value} {vs vs' : List Value}
      {first rest : List Replacement}
      (h : Renders (place ++ "[" ++ toString index ++ "]") (.value v) first (.value v'))
      (hrest : Renders place (.items (index + 1) vs) rest (.items (index + 1) vs')) :
      Renders place (.items index (v :: vs)) (first ++ rest) (.items index (v' :: vs'))
  | noEntries {place : String} : Renders place (.entries []) [] (.entries [])
  | entry {place k : String} {v v' : Value} {es es' : List (String × Value)}
      {first rest : List Replacement}
      (h : Renders (place ++ "." ++ k) (.value v) first (.value v'))
      (hrest : Renders place (.entries es) rest (.entries es')) :
      Renders place (.entries ((k, v) :: es)) (first ++ rest) (.entries ((k, v') :: es'))

/-! ## every value is rendered -/

/-- Every text is rendered with some log. -/
theorem exists_renders_text (place : String) (cs : List Char) :
    ∃ log out, Renders resolver context place (.text cs) log (.text out) := by
  induction cs using spanInduction with
  | plain cs h => exact ⟨[], cs, .plain h⟩
  | span before inner after hopen hclose ih =>
      obtain ⟨log, out, h⟩ := ih
      exact ⟨_, _, .span hopen hclose rfl h⟩

/-- Items are, if each of them is. -/
theorem exists_renders_items {vs : List Value}
    (h : ∀ v ∈ vs, ∀ place, ∃ log v', Renders resolver context place (.value v) log (.value v'))
    (place : String) (index : Nat) :
    ∃ log vs', Renders resolver context place (.items index vs) log (.items index vs') := by
  induction vs generalizing index with
  | nil => exact ⟨[], [], .noItems⟩
  | cons v vs ih =>
      rw [List.forall_mem_cons] at h
      obtain ⟨first, v', hv⟩ := h.1 (place ++ "[" ++ toString index ++ "]")
      obtain ⟨rest, vs', hvs⟩ := ih h.2 (index + 1)
      exact ⟨first ++ rest, v' :: vs', .item hv hvs⟩

/-- So are entries. -/
theorem exists_renders_entries {es : List (String × Value)}
    (h : ∀ e ∈ es, ∀ place, ∃ log v', Renders resolver context place (.value e.2) log (.value v'))
    (place : String) :
    ∃ log es', Renders resolver context place (.entries es) log (.entries es') := by
  induction es with
  | nil => exact ⟨[], [], .noEntries⟩
  | cons entry es ih =>
      obtain ⟨k, v⟩ := entry
      rw [List.forall_mem_cons] at h
      obtain ⟨first, v', hv⟩ := h.1 (place ++ "." ++ k)
      obtain ⟨rest, es', hes⟩ := ih h.2
      exact ⟨first ++ rest, (k, v') :: es', .entry hv hes⟩

/-- Every value is rendered with some log. -/
theorem exists_renders (v : Value) (place : String) :
    ∃ log v', Renders resolver context place (.value v) log (.value v') := by
  induction v using Value.induction generalizing place with
  | null => exact ⟨[], _, .null⟩
  | bool b => exact ⟨[], _, .bool b⟩
  | number n => exact ⟨[], _, .number n⟩
  | string s =>
      obtain ⟨log, out, h⟩ := exists_renders_text resolver context place s.toList
      exact ⟨log, _, .string h⟩
  | array vs ih =>
      obtain ⟨log, vs', h⟩ := exists_renders_items resolver context ih place 0
      exact ⟨log, _, .array h⟩
  | object es ih =>
      obtain ⟨log, es', h⟩ := exists_renders_entries resolver context ih place
      exact ⟨log, _, .object h⟩

/-! ## what is rendered and what is reported -/

/-- The part with all its strings rendered. -/
def Part.rendered : Part → Part
  | .text cs => .text (render resolver context cs)
  | .value v => .value (renderValue resolver context v)
  | .items index vs => .items index (renderItems resolver context vs)
  | .entries es => .entries (renderEntries resolver context es)

/-- The report on a part at a place. -/
def Part.unresolved (place : String) : Part → List Unresolved
  | .text cs => unresolvedIn resolver context place (String.ofList cs)
  | .value v => Template.unresolved resolver context place v
  | .items index vs => unresolvedItems resolver context place index vs
  | .entries es => unresolvedEntries resolver context place es

variable {resolver : Resolver} {context : Context}

/-- The rendered part is fixed by the part: the log changes nothing. -/
theorem Renders.out_eq {place : String} {part out : Part} {log : List Replacement}
    (h : Renders resolver context place part log out) : out = part.rendered resolver context := by
  induction h with
  | plain h => rw [Part.rendered, render_of_not_hasSpan resolver context h]
  | span hopen hclose hvalue hrest ih =>
      rw [Part.rendered, Part.text.injEq] at ih
      rw [Part.rendered, render_span resolver context hopen hclose, hvalue, ih]
  | null | bool b | number n | noItems | noEntries => rfl
  | string h ih =>
      rw [Part.rendered, Part.text.injEq] at ih
      rw [Part.rendered, renderValue, renderString, ih]
  | array h ih =>
      rw [Part.rendered, Part.items.injEq] at ih
      rw [Part.rendered, renderValue, ih.2]
  | object h ih =>
      rw [Part.rendered, Part.entries.injEq] at ih
      rw [Part.rendered, renderValue, ih]
  | item h hrest ih ihrest =>
      rw [Part.rendered, Part.value.injEq] at ih
      rw [Part.rendered, Part.items.injEq] at ihrest
      rw [Part.rendered, renderItems, ih, ihrest.2]
  | entry h hrest ih ihrest =>
      rw [Part.rendered, Part.value.injEq] at ih
      rw [Part.rendered, Part.entries.injEq] at ihrest
      rw [Part.rendered, renderEntries, ih, ihrest]

/-- The first span of a text is reported if it has an expression without a value. -/
theorem unresolvedIn_span {before inner : List Char} (hopen : Text.Precedes '{' before)
    (hclose : Text.Precedes '}' inner) (after : List Char) (place : String) :
    unresolvedIn resolver context place
        (String.ofList (before ++ (opening ++ (inner ++ (closing ++ after))))) =
      (Replacement.missing? ⟨place, Text.trim inner,
        resolver.resolve context (Text.trim inner)⟩).toList ++
      unresolvedIn resolver context place (String.ofList after) := by
  rw [unresolvedIn, unresolvedIn, String.toList_ofList, String.toList_ofList,
    expressions_span hopen hclose, List.filterMap_append, Replacement.missing?]
  congr 1
  by_cases hblank : Text.trim inner = []
  · simp [hblank]
  · cases hvalue : resolver.resolve context (Text.trim inner) with
    | none => simp [hblank, hvalue]
    | some v => simp [hblank, hvalue]

/-- What is reported unresolved is what the log has no value for. -/
theorem Renders.unresolved_eq {place : String} {part out : Part} {log : List Replacement}
    (h : Renders resolver context place part log out) :
    part.unresolved resolver context place = log.filterMap Replacement.missing? := by
  induction h with
  | plain h =>
      rw [Part.unresolved, unresolvedIn, String.toList_ofList, expressions_of_not_hasSpan h]
      rfl
  | @span place before inner after out log value hopen hclose hvalue hrest ih =>
      rw [Part.unresolved] at ih
      rw [Part.unresolved, unresolvedIn_span hopen hclose, hvalue, ih]
      cases hmissing : Replacement.missing? ⟨place, Text.trim inner, value⟩ with
      | none => rw [List.filterMap_cons_none hmissing]; rfl
      | some m => rw [List.filterMap_cons_some hmissing]; rfl
  | null | bool b | number n | noItems | noEntries => rfl
  | string h ih =>
      rw [Part.unresolved, String.ofList_toList] at ih
      rw [Part.unresolved, Template.unresolved, ih]
  | array h ih | object h ih => exact ih
  | item h hrest ih ihrest | entry h hrest ih ihrest =>
      rw [List.filterMap_append, ← ih, ← ihrest]
      rfl

/-- A replacement misses nothing if its span is empty or has a value. -/
theorem Replacement.missing?_eq_none_iff {r : Replacement} :
    r.missing? = none ↔ (r.expression ≠ [] → r.value.isSome) := by
  rw [Replacement.missing?, ite_eq_left_iff]
  simp [Option.isSome_iff_ne_none]

end Rendering

/-- **The report agrees with the rendering.** A list of replacements leads from every value to the
rendered value, and whatever list leads from the value to anything, that is the rendered value, and
the report lists the replacements of an expression by nothing, in their order and with their places.
So the report is empty exactly if every expression that is replaced has a value. -/
theorem unresolved_eq_missing (resolver : Resolver) (context : Context) (place : String)
    (v : Value) :
    (∃ log, Renders resolver context place (.value v) log
      (.value (renderValue resolver context v))) ∧
    ∀ log out, Renders resolver context place (.value v) log out →
      out = .value (renderValue resolver context v) ∧
      unresolved resolver context place v = log.filterMap Replacement.missing? ∧
      (unresolved resolver context place v = [] ↔
        ∀ r ∈ log, r.expression ≠ [] → r.value.isSome) := by
  refine ⟨?_, fun log out h => ?_⟩
  · obtain ⟨log, v', h⟩ := exists_renders resolver context v place
    have hout : Part.value v' = .value (renderValue resolver context v) := h.out_eq
    exact ⟨log, hout ▸ h⟩
  · have hreport : unresolved resolver context place v = log.filterMap Replacement.missing? :=
      h.unresolved_eq
    refine ⟨h.out_eq, hreport, ?_⟩
    rw [hreport, List.filterMap_eq_nil_iff]
    exact forall₂_congr fun r _ => Replacement.missing?_eq_none_iff

/-- A resolver that knows a single name. -/
def knowing : Resolver := ⟨"knowing", fun _ cs => if cs = ['x'] then some .null else none⟩

/-- Of three spans in an item of a list, one has a value, one is blank, and one is reported; the
opening behind them is not closed. -/
theorem unresolved_eq_missing_item :
    unresolved knowing ⟨[]⟩ "args"
        (.array [.bool true,
          .string "\x7b\x7bx\x7d\x7d\x7b\x7by\x7d\x7d\x7b\x7b\x7d\x7d\x7b\x7b"]) =
      [⟨"args[1]", "y"⟩] := by
  have hopen : ¬HasSpan ['{', '{'] := by
    rintro ⟨before, inner, after, h⟩
    have hlength := congrArg List.length h
    simp only [opening, closing, List.length_append, List.length_cons, List.length_nil] at hlength
    omega
  have htext (place : String) : Renders knowing ⟨[]⟩ place
      (.text ([] ++ (opening ++ (['x'] ++ (closing ++ ([] ++ (opening ++ (['y'] ++ (closing ++
        ([] ++ (opening ++ ([] ++ (closing ++ ['{', '{']))))))))))))) _ _ :=
    .span (by decide) (by decide) rfl (.span (by decide) (by decide) rfl
      (.span (by decide) (by decide) rfl (.plain hopen)))
  have hstring (place : String) := Renders.string
    (s := "\x7b\x7bx\x7d\x7d\x7b\x7by\x7d\x7d\x7b\x7b\x7d\x7d\x7b\x7b") (htext place)
  have hvalue : Renders knowing ⟨[]⟩ "args" _ _ _ :=
    .array (.item (.bool true) (.item (hstring _) .noItems))
  exact ((unresolved_eq_missing knowing ⟨[]⟩ "args" _).2 _ _ hvalue).2.1

end Runbook.Template

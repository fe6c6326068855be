import Runbook.Proofs.Redaction.Scan
import Runbook.Proofs.Value.Layout

/-!
# Runbook.Proofs.Redaction.Literal

Redacting a data text. The rules look at the whole text, but nothing outside of its strings
announces a secret, so each string is redacted on its own, unless a secret in it reaches beyond the
quote at its end (`redactWith_layout`). Where that happens to no string, the redacted text is a data
text again: secrets are cut out at seams, so no escape is cut in two (`Passes.stringBody`).
-/

namespace Runbook.Redaction

variable {rule : Rule} {mask : List Char} {previous : Option Char}

/-! ## cutting a string -/

/-- A text without seams does not have a given one. -/
theorem isSeam_notMem {cs : List Char} {c : Char} (hc : isSeam c = true)
    (h : ∀ d ∈ cs, isSeam d = false) : c ∉ cs := fun hmem => by simp [h c hmem] at hc

/-- The digits of an escape are no seams. -/
theorem isSeam_isHexDigit {c : Char} (h : IsHexDigit c) : isSeam c = false := by
  have hall : ∀ d ∈ "0123456789abcdefABCDEF".toList, isSeam d = false := by decide
  exact hall c h

/-- A seam is no part of the text of another character. -/
theorem eq_singleton_of_isSeam {cs : List Char} (h : CharacterText cs) {c : Char} (hmem : c ∈ cs)
    (hc : isSeam c = true) : cs = [c] := by
  cases h with
  | plain hquote hescape hcontrol => rw [List.mem_singleton.mp hmem]
  | @letter d hd =>
      have hall : ∀ e ∈ "\"\\/bfnrt".toList, isSeam e = false := by decide
      refine absurd hmem (isSeam_notMem hc ?_)
      simpa using ⟨by decide, hall d hd⟩
  | code ha hb hcode hd =>
      refine absurd hmem (isSeam_notMem hc ?_)
      simpa using ⟨by decide, by decide, isSeam_isHexDigit ha, isSeam_isHexDigit hb,
        isSeam_isHexDigit hcode, isSeam_isHexDigit hd⟩

/-- A string can be cut in front of a seam and behind it. -/
theorem stringBody_cut {front back : List Char} {c : Char} (h : StringBody (front ++ c :: back))
    (hc : isSeam c = true) : StringBody front ∧ StringBody [c] ∧ StringBody back := by
  generalize htext : front ++ c :: back = cs at h
  induction h generalizing front with
  | nil => simp at htext
  | @cons first rest hfirst hrest ih =>
      rcases List.append_eq_append_iff.mp htext with ⟨inner, hinner, hback⟩ | ⟨inner, rfl, rfl⟩
      · cases inner with
        | nil =>
            -- the seam starts the rest
            obtain ⟨-, hseam, hbody⟩ := @ih [] hback
            exact ⟨by simpa [hinner] using hfirst.body, hseam, hbody⟩
        | cons d inner =>
            obtain ⟨rfl, rfl⟩ := List.cons.inj hback
            have hsingle := eq_singleton_of_isSeam hfirst (by simp [hinner]) hc
            rw [hinner, List.append_eq_singleton_iff] at hsingle
            obtain ⟨rfl, rfl⟩ : front = [] ∧ inner = [] := by simpa using hsingle
            exact ⟨.nil, by simpa [hinner] using hfirst.body, hrest⟩
      · obtain ⟨hfront, hseam, hbody⟩ := ih rfl
        exact ⟨.cons hfirst hfront, hseam, hbody⟩

/-- A string can be cut behind characters without backslashes. -/
theorem stringBody_of_append {front back : List Char} (h : StringBody (front ++ back))
    (hescape : '\\' ∉ front) : StringBody back := by
  induction front with
  | nil => exact h
  | cons c front ih =>
      refine ih ?_ fun hmem => hescape (List.mem_cons_of_mem _ hmem)
      rw [List.cons_append] at h
      generalize htext : c :: (front ++ back) = cs at h
      cases h with
      | nil => contradiction
      | @cons first rest hfirst hrest =>
          cases hfirst with
          | plain hquote hplain hcontrol =>
              obtain ⟨rfl, rfl⟩ := List.cons.inj htext
              exact hrest
          | letter hd => exact absurd (List.cons.inj htext).1 fun hc => hescape (by simp [hc])
          | code ha hb hcode hd =>
              exact absurd (List.cons.inj htext).1 fun hc => hescape (by simp [hc])

/-- What is behind a secret is still the end of a string, for a secret is cut out whole. -/
theorem Rule.Sound.stringBody_of_find? (hsound : rule.Sound) {front lead secret back : List Char}
    (h : StringBody (front ++ (lead ++ secret ++ back)))
    (hfind : rule.find? previous (lead ++ secret ++ back ++ ['"']) = some (lead, secret)) :
    StringBody (front ++ lead) ∧ StringBody back := by
  obtain ⟨rest, hrest, ⟨seam, hlast, hseam⟩, hwhole⟩ := hsound.of_find? hfind
  obtain rfl : back ++ ['"'] = rest := by simpa using hrest
  obtain ⟨lead', rfl⟩ : ∃ lead', lead = lead' ++ [seam] := List.getLast?_eq_some_iff.mp hlast
  obtain ⟨hfront, hmark, hback⟩ : StringBody (front ++ lead') ∧ StringBody [seam] ∧
      StringBody (secret ++ back) := stringBody_cut (by simpa using h) hseam
  refine ⟨by simpa using hfront.append hmark, ?_⟩
  rcases hwhole with hends | hescapes
  · cases back with
    | nil => exact .nil
    | cons c back =>
        obtain ⟨-, hc, hback⟩ := stringBody_cut hback (hends c rfl)
        exact hc.append hback
  · exact stringBody_of_append hback hescapes

/-- Texts that start with a quote. -/
def AtQuote (tail : List Char) : Prop := ∃ rest, tail = '"' :: rest

/-- The inside of a string that passes stays one. -/
theorem Passes.stringBody (hsound : rule.Sound) (hmask : StringBody mask) {cs out : List Char}
    (h : Passes rule mask AtQuote previous cs out) (hbody : StringBody cs) : StringBody out := by
  suffices hfront : ∀ front, StringBody (front ++ cs) → StringBody (front ++ out) from
    hfront [] hbody
  clear hbody
  induction h with
  | done previous => exact fun front hbody => hbody
  | @kept previous c cs out hfind hpasses ih =>
      intro front hbody
      simpa using ih (front ++ [c]) (by simpa using hbody)
  | @replaced previous lead secret cs out hlead hfind hpasses ih =>
      intro front hbody
      obtain ⟨hfront, hback⟩ := hsound.stringBody_of_find? hbody (hfind ['"'] ⟨[], rfl⟩)
      simpa using ih (front ++ lead ++ mask) ((hfront.append hmask).append hback)

/-! ## one string in a text -/

/-- At the quote behind it, a text is not looked at, or looked at on its own, or a secret takes it
to its end and the quote with it. -/
theorem Rule.Sound.decides_or_takes_quote (hsound : rule.Sound) (previous : Option Char)
    (cs : List Char) :
    Decides rule AtQuote previous cs ∨
      ∃ lead secret, lead ≠ [] ∧ cs ++ ['"'] = lead ++ secret ∧
        rule.find? previous (cs ++ ['"']) = some (lead, secret) := by
  cases hword : rule.startsWord && previous.any Text.isWordChar with
  | true => exact .inl (.inl fun tail _ => Rule.find?_eq_none hword _)
  | false =>
      have hfind := Rule.find?_eq_bind hword
      rcases hsound.stopsAtQuote cs with hnone | ⟨lead, left, rfl, hlead⟩
      · refine .inl (.inl ?_)
        rintro _ ⟨rest, rfl⟩
        rw [hfind, hnone, Option.bind_none]
      · have hfind' : ∀ rest, rule.find? previous (lead ++ left ++ '"' :: rest) =
            (rule.secret (left ++ '"' :: rest)).map fun secret => (lead, secret.1) := fun rest => by
          rw [hfind, hlead, Option.bind_some]
        rcases hsound.guardsQuote left with hnone | ⟨secret, behind, rfl, hsecret⟩ | htaken
        · refine .inl (.inl ?_)
          rintro _ ⟨rest, rfl⟩
          rw [hfind', hnone, Option.map_none]
        · have hfound : ∀ tail, AtQuote tail →
              rule.find? previous (lead ++ (secret ++ behind) ++ tail) = some (lead, secret) := by
            rintro _ ⟨rest, rfl⟩
            rw [hfind', hsecret, Option.map_some]
          exact .inl (hsound.decides ⟨[], rfl⟩ (List.append_assoc ..).symm hfound)
        · obtain ⟨part, behind, hsecret⟩ := htaken []
          have hfound : rule.find? previous (lead ++ left ++ ['"']) =
              some (lead, left ++ '"' :: part) := by
            rw [hfind', hsecret, Option.map_some]
          obtain ⟨rest, hrest, -⟩ := hsound.of_find? hfound
          obtain ⟨rfl, -⟩ : part = [] ∧ rest = [] := by simpa using hrest
          exact .inr ⟨lead, _, hsound.ne_nil hfound, List.append_assoc .., hfound⟩

/-- A text in quotes is redacted to a text in quotes, or a secret takes its closing quote. -/
theorem Rule.Sound.passes_or_getLast? (hsound : rule.Sound) (hmask : mask ≠ [])
    (previous : Option Char) (cs : List Char) :
    (∃ out, Passes rule mask AtQuote previous cs out) ∨
      (scrub rule mask 0 previous (cs ++ ['"'])).getLast? = mask.getLast? := by
  rcases passes_or mask (fun previous cs _ => hsound.decides_or_takes_quote previous cs)
    previous cs with hpasses | ⟨front, back, out, rfl, hpasses, lead, secret, hlead, hback, hfind⟩
  · exact .inl hpasses
  · have htail : ∃ tail, AtQuote tail ∧ back ++ ['"'] = back ++ tail := ⟨['"'], ⟨[], rfl⟩, rfl⟩
    rw [hback, ← List.append_nil (lead ++ secret)] at hfind
    rw [List.append_assoc, hpasses.scrub_eq htail, hback, ← List.append_nil (lead ++ secret),
      scrub_replaced hlead hfind]
    obtain ⟨m, hm⟩ : ∃ m, mask.getLast? = some m :=
      ⟨mask.getLast hmask, List.getLast?_eq_some_getLast hmask⟩
    exact .inr (by simp [scrub, List.getLast?_append, hm])

/-! ## the strings of a text -/

/-- In front of a text whose name has no telltale, the piece is redacted on its own. -/
def Rewrites (rule : Rule) (mask piece piece' : List Char) : Prop :=
  ∀ rest, Calm rest → Calm (piece ++ rest) ∧
    ∀ previous, scrub rule mask 0 previous (piece ++ rest) =
      piece' ++ scrub rule mask 0 none rest

/-- Pieces that are redacted on their own are so together. -/
theorem Rewrites.append {first first' second second' : List Char}
    (hfirst : Rewrites rule mask first first') (hsecond : Rewrites rule mask second second') :
    Rewrites rule mask (first ++ second) (first' ++ second') := by
  intro rest hrest
  obtain ⟨hcalm, hsecond⟩ := hsecond rest hrest
  obtain ⟨hcalm, hfirst⟩ := hfirst (second ++ rest) hcalm
  rw [List.append_assoc]
  exact ⟨hcalm, fun previous => by rw [hfirst, hsecond, List.append_assoc]⟩

/-- A piece that is redacted on its own is so at the end of a text. -/
theorem Rewrites.scrub_eq {piece piece' : List Char} (h : Rewrites rule mask piece piece') :
    scrub rule mask 0 none piece = piece' := by
  simpa [scrub] using (h [] calm_nil).2 none

/-- Without telltales a piece is kept. -/
theorem Rule.Sound.rewrites (hsound : rule.Sound) {cs : List Char}
    (h : ∀ c ∈ cs, foldCase c ∉ telltales) : Rewrites rule mask cs cs := fun _ hrest =>
  ⟨hrest.append h, hsound.scrub_append_calm h hrest⟩

/-- A string is redacted on its own and to a string, or a secret takes the quote at its end. -/
theorem Rule.Sound.rewrites_or (hsound : rule.Sound) (hmask : StringBody mask) (hne : mask ≠ [])
    {cs : List Char} (h : StringText cs) :
    (Rewrites rule mask cs (scrub rule mask 0 none cs) ∧
        StringText (scrub rule mask 0 none cs)) ∨
      (scrub rule mask 0 none cs).getLast? = mask.getLast? := by
  obtain ⟨body, rfl, hbody⟩ := h
  have hquote : ∀ rest, Calm ('"' :: rest) := calm_cons_of_not (by decide)
  have hopen : ∀ previous rest, scrub rule mask 0 previous ('"' :: rest) =
      '"' :: scrub rule mask 0 (some '"') rest := fun previous rest =>
    scrub_kept (hsound.find?_calm (hquote rest))
  rcases hsound.passes_or_getLast? hne (some '"') body with ⟨out, hpasses⟩ | hlast
  · have hscrub : ∀ previous rest, Calm rest →
        scrub rule mask 0 previous ('"' :: body ++ ['"'] ++ rest) =
          '"' :: out ++ ['"'] ++ scrub rule mask 0 none rest := by
      intro previous rest hrest
      have htail : AtQuote ('"' :: rest) := ⟨rest, rfl⟩
      simp only [List.cons_append, List.append_assoc, List.nil_append]
      rw [hopen, hpasses.scrub_eq htail, hopen, hsound.scrub_calm hrest]
    have hwhole : scrub rule mask 0 none ('"' :: body ++ ['"']) = '"' :: out ++ ['"'] := by
      simpa [scrub] using hscrub none [] calm_nil
    rw [hwhole]
    exact .inl ⟨fun rest hrest => ⟨hquote _, fun previous => hscrub previous rest hrest⟩,
      out, rfl, hpasses.stringBody hsound hmask hbody⟩
  · right
    rw [List.cons_append, hopen, List.getLast?_cons, hlast]
    cases hm : mask.getLast? with
    | none => simp_all
    | some m => rfl

/-! ## layouts -/

/-- Digits are no telltales. -/
theorem foldCase_notMem_of_isDigit {c : Char} (h : c.isDigit = true) : foldCase c ∉ telltales := by
  have hall : ∀ n < 58, (Char.ofNat n).isDigit = true → foldCase (Char.ofNat n) ∉ telltales := by
    decide
  have hcode : c.toNat < 58 := by
    have hrange : 48 ≤ c.toNat ∧ c.toNat ≤ 57 := by
      simpa [Char.isDigit, UInt32.le_iff_toNat_le] using h
    omega
  exact Text.of_toNat_lt (P := fun c => c.isDigit = true → foldCase c ∉ telltales) hall hcode h

/-- The characters of a number are no telltales. -/
theorem foldCase_notMem_of_number (n : Number) : ∀ c ∈ n.chars, foldCase c ∉ telltales := by
  intro c hc
  rcases n.numberText_chars.mem hc with hdigit | hmark
  · exact foldCase_notMem_of_isDigit hdigit
  · have hall : ∀ d ∈ "-+.eE".toList, foldCase d ∉ telltales := by decide
    exact hall c hmark

section

open Value

variable {literal literal' : String → List Char}

/-- Neither is what stands between two lines. -/
theorem foldCase_notMem_newline (level : Nat) : ∀ c ∈ newline level, foldCase c ∉ telltales := by
  refine List.forall_mem_cons.mpr ⟨by decide, fun c hc => ?_⟩
  rw [List.eq_of_mem_replicate hc]
  decide

/-- The words that are values are kept, and so are empty brackets and braces. -/
theorem Rule.Sound.rewrites_word (hsound : rule.Sound) :
    ∀ w ∈ ["null", "true", "false", "[]", "\x7b\x7d"], Rewrites rule mask w.toList w.toList := by
  have hall : ∀ w ∈ ["null", "true", "false", "[]", "\x7b\x7d"],
      ∀ c ∈ w.toList, foldCase c ∉ telltales := by decide
  exact fun w hw => hsound.rewrites (hall w hw)

/-- A mark between the parts of a text, with a line break behind it. -/
theorem Rule.Sound.rewrites_mark (hsound : rule.Sound) {c : Char} (level : Nat)
    (hc : foldCase c ∉ telltales) :
    Rewrites rule mask (c :: newline level) (c :: newline level) :=
  hsound.rewrites (List.forall_mem_cons.mpr ⟨hc, foldCase_notMem_newline level⟩)

/-- A line break in front of a closing bracket. -/
theorem Rule.Sound.rewrites_close (hsound : rule.Sound) {c : Char} (level : Nat)
    (hc : foldCase c ∉ telltales) :
    Rewrites rule mask (newline level ++ [c]) (newline level ++ [c]) :=
  hsound.rewrites (List.forall_mem_append.mpr ⟨foldCase_notMem_newline level, by simpa using hc⟩)

/-- The items behind the first are redacted one by one. -/
theorem Rule.Sound.rewrites_items (hsound : rule.Sound) {xs : List Value} {level : Nat}
    (h : ∀ x ∈ xs, Rewrites rule mask (layout literal level x) (layout literal' level x)) :
    Rewrites rule mask (itemsLayout literal level xs) (itemsLayout literal' level xs) := by
  induction xs with
  | nil => exact hsound.rewrites (by simp [itemsLayout])
  | cons x xs ih =>
      rw [itemsLayout, itemsLayout]
      exact ((hsound.rewrites_mark level (by decide)).append (h x List.mem_cons_self)).append
        (ih fun y hy => h y (List.mem_cons_of_mem _ hy))

/-- So are the entries behind the first. -/
theorem Rule.Sound.rewrites_entries (hsound : rule.Sound) {es : List (String × Value)}
    {level : Nat} (hkeys : ∀ e ∈ es, Rewrites rule mask (literal e.1) (literal' e.1))
    (h : ∀ e ∈ es, Rewrites rule mask (layout literal level e.2) (layout literal' level e.2)) :
    Rewrites rule mask (entriesLayout literal level es) (entriesLayout literal' level es) := by
  induction es with
  | nil => exact hsound.rewrites (by simp [entriesLayout])
  | cons e es ih =>
      have hcolon : Rewrites rule mask ": ".toList ": ".toList := hsound.rewrites (by decide)
      rw [entriesLayout, entriesLayout]
      exact ((((hsound.rewrites_mark level (by decide)).append (hkeys e List.mem_cons_self)).append
        hcolon).append (h e List.mem_cons_self)).append
          (ih (fun f hf => hkeys f (List.mem_cons_of_mem _ hf))
            fun f hf => h f (List.mem_cons_of_mem _ hf))

/-- If the strings of a value are redacted on their own, the text around them is kept. -/
theorem Rule.Sound.rewrites_layout (hsound : rule.Sound) (v : Value) (level : Nat)
    (h : ∀ s ∈ v.strings, Rewrites rule mask (literal s) (literal' s)) :
    Rewrites rule mask (layout literal level v) (layout literal' level v) := by
  induction v using Value.induction generalizing level with
  | null => exact hsound.rewrites_word "null" (by decide)
  | bool b =>
      cases b with
      | true => exact hsound.rewrites_word "true" (by decide)
      | false => exact hsound.rewrites_word "false" (by decide)
  | number n => exact hsound.rewrites (foldCase_notMem_of_number n)
  | string s => exact h s (List.mem_singleton.mpr rfl)
  | array xs ih =>
      have hitems : ∀ x ∈ xs, Rewrites rule mask (layout literal (level + 1) x)
          (layout literal' (level + 1) x) := fun x hx =>
        ih x hx (level + 1) fun s hs => h s (strings_subset_of_item hx hs)
      cases xs with
      | nil => exact hsound.rewrites_word "[]" (by decide)
      | cons x xs =>
          rw [layout, layout, List.append_assoc _ (newline level),
            List.append_assoc _ (newline level)]
          exact (((hsound.rewrites_mark (level + 1) (by decide)).append
            (hitems x List.mem_cons_self)).append
              (hsound.rewrites_items fun y hy => hitems y (List.mem_cons_of_mem _ hy))).append
                (hsound.rewrites_close level (by decide))
  | object es ih =>
      -- keys are literals too, so they are redacted on their own like values
      have hkeys : ∀ e ∈ es, Rewrites rule mask (literal e.1) (literal' e.1) := fun e he =>
        h e.1 (strings_subset_of_entry he List.mem_cons_self)
      have hvalues : ∀ e ∈ es, Rewrites rule mask (layout literal (level + 1) e.2)
          (layout literal' (level + 1) e.2) := fun e he =>
        ih e he (level + 1) fun s hs =>
          h s (strings_subset_of_entry he (List.mem_cons_of_mem _ hs))
      cases es with
      | nil => exact hsound.rewrites_word "\x7b\x7d" (by decide)
      | cons e es =>
          have hcolon : Rewrites rule mask ": ".toList ": ".toList := hsound.rewrites (by decide)
          rw [layout, layout, List.append_assoc _ (newline level),
            List.append_assoc _ (newline level)]
          exact (((((hsound.rewrites_mark (level + 1) (by decide)).append
            (hkeys e List.mem_cons_self)).append hcolon).append
              (hvalues e List.mem_cons_self)).append
                (hsound.rewrites_entries (fun f hf => hkeys f (List.mem_cons_of_mem _ hf))
                  fun f hf => hvalues f (List.mem_cons_of_mem _ hf))).append
                    (hsound.rewrites_close level (by decide))

/-! ## all rules -/

/-- The text behind some rules. -/
def scrubAll (mask : List Char) (rules : List Rule) (cs : List Char) : List Char :=
  rules.foldl (fun cs rule => scrub rule mask 0 none cs) cs

/-- Behind the rules the last character is what it was, or that of the mask. -/
theorem getLast?_scrubAll {rules : List Rule} (hsound : ∀ rule ∈ rules, rule.Sound)
    (hmask : mask ≠ []) (cs : List Char) :
    (scrubAll mask rules cs).getLast? = cs.getLast? ∨
      (scrubAll mask rules cs).getLast? = mask.getLast? := by
  induction rules generalizing cs with
  | nil => exact .inl rfl
  | cons rule rules ih =>
      obtain ⟨hrule, hrules⟩ := List.forall_mem_cons.mp hsound
      rcases ih hrules (scrub rule mask 0 none cs) with hsame | hmasked
      · exact (hrule.getLast?_scrub hmask none cs).imp hsame.trans hsame.trans
      · exact .inr hmasked

/-- If each string of a value keeps its closing quote, it is redacted on its own and to a string. -/
theorem scrubAll_layout {rules : List Rule} (hsound : ∀ rule ∈ rules, rule.Sound)
    (hmask : StringBody mask) (hne : mask ≠ []) (hquote : mask.getLast? ≠ some '"')
    (v : Value) (level : Nat) (htext : ∀ s ∈ v.strings, StringText (literal s))
    (hlast : ∀ s ∈ v.strings, (scrubAll mask rules (literal s)).getLast? = some '"') :
    scrubAll mask rules (layout literal level v) =
        layout (fun s => scrubAll mask rules (literal s)) level v ∧
      ∀ s ∈ v.strings, StringText (scrubAll mask rules (literal s)) := by
  induction rules generalizing literal with
  | nil => exact ⟨rfl, htext⟩
  | cons rule rules ih =>
      obtain ⟨hrule, hrules⟩ := List.forall_mem_cons.mp hsound
      have hstep : ∀ s ∈ v.strings,
          Rewrites rule mask (literal s) (scrub rule mask 0 none (literal s)) ∧
            StringText (scrub rule mask 0 none (literal s)) := by
        intro s hs
        refine (hrule.rewrites_or hmask hne (htext s hs)).resolve_right fun htaken => ?_
        -- once the quote is taken, no rule brings it back
        have hend := hlast s hs
        rcases getLast?_scrubAll hrules hne (scrub rule mask 0 none (literal s)) with
          hsame | hmasked
        · exact hquote (htaken.symm.trans (hsame.symm.trans hend))
        · exact hquote (hmasked.symm.trans hend)
      have hlayout := (hrule.rewrites_layout v level fun s hs => (hstep s hs).1).scrub_eq
      obtain ⟨hrest, htexts⟩ := ih hrules (fun s hs => (hstep s hs).2) hlast
      exact ⟨(congrArg (scrubAll mask rules) hlayout).trans hrest, htexts⟩

end

/-- Written as data, the string keeps the quote at its end when it is redacted. -/
def KeepsQuote (s : String) : Prop :=
  (redactWith Redaction.mask.toList (quoted s)).getLast? = some '"'

instance (s : String) : Decidable (KeepsQuote s) := inferInstanceAs (Decidable (_ = _))

/-- The mask can stand in a string as it is. -/
theorem stringBody_mask : StringBody Redaction.mask.toList :=
  stringBody_of_forall (by decide)

/-- **Redacting a data text redacts its strings**, each on its own and to a string, if they all keep
the quotes at their ends. -/
theorem redactWith_layout (v : Value) (level : Nat) (h : ∀ s ∈ v.strings, KeepsQuote s) :
    redactWith Redaction.mask.toList (v.prettyChars level) =
        v.layout (fun s => redactWith Redaction.mask.toList (quoted s)) level ∧
      ∀ s ∈ v.strings, StringText (redactWith Redaction.mask.toList (quoted s)) := by
  rw [← Value.layout_quoted]
  exact scrubAll_layout sound_of_mem_rules stringBody_mask (by decide) (by decide) v level
    (fun s _ => stringText_quoted s) h

end Runbook.Redaction

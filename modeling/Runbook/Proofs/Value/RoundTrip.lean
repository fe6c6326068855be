import Runbook.Proofs.Value.Reading

/-!
# Runbook.Proofs.Value.RoundTrip

Values read back from their texts. A value is exact if no float is in it, its integers are in the
range of the format, every mapping has its keys once, and lists and mappings nest no deeper than
they are read (`Value.Exact`). The text of an exact value is read as the value, in front of any text
that does not go on with a number (`Exact.value_chars`), and by itself (`Exact.read_chars`).
-/

namespace Runbook

/-- The value has no floats, its integers are in the range of the format, its mappings have every
key once, and its lists and mappings nest at most `depth` deep. -/
inductive Value.Exact : Nat → Value → Prop where
  | null {depth : Nat} : Exact depth .null
  | bool {depth : Nat} (b : Bool) : Exact depth (.bool b)
  | integer {depth : Nat} {i : Int} (hlower : -(Text.signedLimit : Int) ≤ i)
      (hupper : i < Text.wordLimit) : Exact depth (.number (.int i))
  | string {depth : Nat} (s : String) : Exact depth (.string s)
  | array {depth : Nat} {xs : List Value} (h : ∀ x ∈ xs, Exact depth x) :
      Exact (depth + 1) (.array xs)
  | object {depth : Nat} {es : Entries} (hkeys : es.keys.Nodup)
      (h : ∀ e ∈ es, Exact depth e.2) : Exact (depth + 1) (.object es)

/-! ## mappings -/

/-- A new key is set behind the entries. -/
theorem Entries.set_of_notMem {key : String} {entries : Entries} (h : key ∉ entries.keys)
    (v : Value) : Entries.set key v entries = entries ++ [(key, v)] := by
  induction entries with
  | nil => rfl
  | cons e es ih =>
      obtain ⟨k, w⟩ := e
      simp only [keys, List.map_cons, List.mem_cons, not_or] at h
      rw [set, if_neg (Ne.symm h.1), ih h.2, List.cons_append]

/-- Bindings with keys of their own are the entries of a mapping as they are. -/
theorem Entries.ofBindings_of_nodup {bindings : List (String × Value)}
    (h : (Entries.keys bindings).Nodup) : Entries.ofBindings bindings = bindings := by
  suffices ∀ (front : Entries) (back : List (String × Value)), (front ++ back).keys.Nodup →
      back.foldl (fun entries b => Entries.set b.1 b.2 entries) front = front ++ back from
    this [] bindings h
  intro front back hkeys
  induction back generalizing front with
  | nil => simp
  | cons b back ih =>
      have hnew : b.1 ∉ front.keys := by
        simp only [keys, List.map_append, List.map_cons, List.nodup_append] at hkeys
        exact fun hmem => hkeys.2.2 _ hmem _ List.mem_cons_self rfl
      rw [List.foldl_cons, Entries.set_of_notMem hnew, ih _ (by simpa using hkeys)]
      simp

namespace Reading

/-! ## first characters -/

/-- The characters that the text of an exact value starts with. -/
def Opens (c : Char) : Prop := c ∈ "ntf\"[\x7b-".toList ∨ c.isDigit = true

instance (c : Char) : Decidable (Opens c) := inferInstanceAs (Decidable (_ ∨ _))

theorem Opens.ne {c d : Char} (hc : Opens c) (hd : ¬Opens d) : c ≠ d := by
  rintro rfl
  exact hd hc

/-- A value does not start with a gap. -/
theorem Opens.skipGaps_cons {c : Char} (hc : Opens c) (cs : List Char) :
    skipGaps (c :: cs) = c :: cs := by
  have hspace := hc.ne (d := ' ') (by decide)
  have hline := hc.ne (d := '\n') (by decide)
  have htab := hc.ne (d := '\t') (by decide)
  have hreturn := hc.ne (d := '\r') (by decide)
  have hgap : isGap c = false := by simp [isGap, hspace, hline, htab, hreturn]
  simp [skipGaps, hgap]

end Reading

/-- The text of a value that can be read back opens one. -/
theorem Value.Exact.chars_cons {depth : Nat} {v : Value} (h : v.Exact depth) :
    ∃ c cs, v.chars = c :: cs ∧ Reading.Opens c := by
  cases h with
  | null => exact ⟨'n', _, rfl, by decide⟩
  | bool b =>
      cases b with
      | true => exact ⟨'t', _, rfl, by decide⟩
      | false => exact ⟨'f', _, rfl, by decide⟩
  | @integer _ i =>
      obtain ⟨c, cs, htext, hc⟩ := Reading.integerText_cons i
      refine ⟨c, cs, htext, ?_⟩
      rcases hc with rfl | hc
      · decide
      · exact .inr hc
  | string s => exact ⟨'"', _, rfl, by decide⟩
  | @array _ xs =>
      cases xs with
      | nil => exact ⟨'[', _, rfl, by decide⟩
      | cons x xs => exact ⟨'[', _, rfl, by decide⟩
  | @object _ es =>
      cases es with
      | nil => exact ⟨'{', _, rfl, by decide⟩
      | cons e es => exact ⟨'{', _, rfl, by decide⟩

namespace Reading

/-! ## items and members -/

/-- The text of the value is read as the value, in front of what does not go on with a number. -/
def ReadsBack (depth : Nat) (v : Value) : Prop :=
  ∀ steps rest, v.chars.length ≤ steps → EndsNumber rest →
    value depth steps (v.chars ++ rest) = .ok (v, rest)

/-- Some steps are left for a text that is not empty. -/
theorem ReadsBack.of_succ {depth : Nat} {v : Value} (hexact : v.Exact depth)
    (h : ∀ steps rest, v.chars.length ≤ steps + 1 → EndsNumber rest →
      value depth (steps + 1) (v.chars ++ rest) = .ok (v, rest)) : ReadsBack depth v := by
  intro steps rest hsteps hrest
  obtain ⟨c, cs, hchars, -⟩ := hexact.chars_cons
  cases steps with
  | zero =>
      rw [hchars] at hsteps
      contradiction
  | succ steps => exact h steps rest hsteps hrest

theorem endsNumber_cons {c : Char} (hc : c ∈ ",]\x7d".toList) (rest : List Char) :
    EndsNumber (c :: rest) := by
  intro d hd
  cases hd
  have hmarks : ∀ c ∈ ",]\x7d".toList, c.isDigit = false ∧ c ≠ '.' ∧ c ≠ 'e' ∧ c ≠ 'E' := by decide
  exact hmarks c hc

/-- Items that are read back one by one are read back in a row. -/
theorem items_chars {depth : Nat} {x : Value} {xs : List Value}
    (hexact : ∀ y ∈ x :: xs, y.Exact depth) (hreads : ∀ y ∈ x :: xs, ReadsBack depth y)
    (rest : List Char) {steps : Nat} (hsteps : (x.chars ++ Value.itemsTail xs).length < steps) :
    items depth steps (x.chars ++ (Value.itemsTail xs ++ ']' :: rest)) = .ok (x :: xs, rest) := by
  induction xs generalizing x steps with
  | nil =>
      obtain ⟨steps, rfl⟩ : ∃ n, steps = n + 1 := ⟨steps - 1, by omega⟩
      simp only [List.length_append] at hsteps
      have hx := hreads x List.mem_cons_self steps (']' :: rest) (by omega)
        (endsNumber_cons (by decide) rest)
      have hclose : skipGaps (']' :: rest) = ']' :: rest := rfl
      simp only [items, Value.itemsTail, List.nil_append, hx, bind, Except.bind, hclose]
      rfl
  | cons y ys ih =>
      rw [List.forall_mem_cons] at hexact hreads
      obtain ⟨steps, rfl⟩ : ∃ n, steps = n + 1 := ⟨steps - 1, by omega⟩
      simp only [Value.itemsTail, List.length_append, List.length_cons] at hsteps
      have hx := hreads.1 steps (Value.itemsTail (y :: ys) ++ ']' :: rest) (by omega)
        (endsNumber_cons (by decide) _)
      have hfewer : (y.chars ++ Value.itemsTail ys).length < steps := by
        simp only [List.length_append]
        omega
      have htail := ih hexact.2 hreads.2 hfewer
      have hcomma : skipGaps (Value.itemsTail (y :: ys) ++ ']' :: rest) =
          ',' :: (y.chars ++ (Value.itemsTail ys ++ ']' :: rest)) := by
        simp [Value.itemsTail, skipGaps, isGap]
      obtain ⟨c, cs, hchars, hc⟩ := (hexact.2 y List.mem_cons_self).chars_cons
      rw [hchars, List.cons_append] at htail hcomma
      have hbracket : c ≠ ']' := hc.ne (by decide)
      simp only [items, hx, bind, Except.bind, hcomma, hc.skipGaps_cons]
      split
      · contradiction
      · -- a comma with a bracket behind it would be a fault
        next heq => exact absurd (List.cons.inj heq).1 hbracket
      · rw [htail]
        rfl

/-- So are members. -/
theorem members_chars {depth : Nat} {k : String} {v : Value} {es : List (String × Value)}
    (hreads : ∀ e ∈ (k, v) :: es, ReadsBack depth e.2) (rest : List Char) {steps : Nat}
    (hsteps : (v.chars ++ Value.entriesTail es).length < steps) :
    members depth steps (k.toList.flatMap escapeChar ++
        '"' :: ':' :: (v.chars ++ (Value.entriesTail es ++ '}' :: rest))) =
      .ok ((k, v) :: es, rest) := by
  induction es generalizing k v steps with
  | nil =>
      obtain ⟨steps, rfl⟩ : ∃ n, steps = n + 1 := ⟨steps - 1, by omega⟩
      simp only [List.length_append] at hsteps
      have hread : ReadsBack depth v := hreads (k, v) List.mem_cons_self
      have hv := hread steps ('}' :: rest) (by omega) (endsNumber_cons (by decide) rest)
      have hclose : skipGaps ('}' :: rest) = '}' :: rest := rfl
      simp only [members, key_quoted, Value.entriesTail, List.nil_append, hv, bind, Except.bind,
        hclose]
      rfl
  | cons e es ih =>
      obtain ⟨k', v'⟩ := e
      rw [List.forall_mem_cons] at hreads
      obtain ⟨steps, rfl⟩ : ∃ n, steps = n + 1 := ⟨steps - 1, by omega⟩
      simp only [Value.entriesTail, List.length_append, List.length_cons] at hsteps
      have hread : ReadsBack depth v := hreads.1
      have hv := hread steps (Value.entriesTail ((k', v') :: es) ++ '}' :: rest) (by omega)
        (endsNumber_cons (by decide) _)
      have hfewer : (v'.chars ++ Value.entriesTail es).length < steps := by
        simp only [List.length_append]
        omega
      have htail := ih (k := k') hreads.2 hfewer
      have hcomma : skipGaps (Value.entriesTail ((k', v') :: es) ++ '}' :: rest) =
          ',' :: '"' :: (k'.toList.flatMap escapeChar ++
            '"' :: ':' :: (v'.chars ++ (Value.entriesTail es ++ '}' :: rest))) := by
        simp [Value.entriesTail, quoted, skipGaps, isGap]
      have hquote : ∀ cs, skipGaps ('"' :: cs) = '"' :: cs := fun _ => rfl
      simp only [members, key_quoted, hv, bind, Except.bind, hcomma, hquote, htail]
      rfl

end Reading

/-! ## values -/

namespace Value.Exact

open Reading

/-- Every exact value is read back. -/
theorem value_chars {depth : Nat} {v : Value} (h : v.Exact depth) : ReadsBack depth v := by
  induction h with
  | null => exact .of_succ .null fun _ _ _ _ => rfl
  | bool b => exact .of_succ (.bool b) fun _ _ _ _ => by cases b <;> rfl
  | integer hlower hupper =>
      exact .of_succ (.integer hlower hupper) fun _ _ _ hrest =>
        value_integerText hlower hupper _ _ hrest
  | string s => exact .of_succ (.string s) fun _ rest _ _ => value_quoted _ _ s rest
  | @array depth xs h ih =>
      refine .of_succ (.array h) fun steps rest hsteps _ => ?_
      cases xs with
      | nil => rfl
      | cons x xs =>
          have htext : (Value.array (x :: xs)).chars ++ rest =
              '[' :: (x.chars ++ (itemsTail xs ++ ']' :: rest)) := by simp [chars]
          have hopen : ∀ cs, skipGaps ('[' :: cs) = '[' :: cs := fun _ => rfl
          have hlength : (x.chars ++ itemsTail xs).length < steps := by
            simp only [chars, List.cons_append, List.length_cons, List.length_append] at hsteps ⊢
            omega
          have hitems := items_chars h ih rest hlength
          obtain ⟨c, cs, hchars, hc⟩ := (h x List.mem_cons_self).chars_cons
          have hbracket : c ≠ ']' := hc.ne (by decide)
          rw [hchars, List.cons_append] at hitems htext
          rw [htext, value, hopen]
          simp only [hc.skipGaps_cons]
          split
          · contradiction
          · -- the bracket of an empty array would close it here
            next heq => exact absurd (List.cons.inj heq).1 hbracket
          · rw [hitems]
            rfl
  | @object depth es hkeys h ih =>
      refine .of_succ (.object hkeys h) fun steps rest hsteps _ => ?_
      cases es with
      | nil => rfl
      | cons e es =>
          obtain ⟨k, v⟩ := e
          have htext : (Value.object ((k, v) :: es)).chars ++ rest =
              '{' :: '"' :: (k.toList.flatMap escapeChar ++
                '"' :: ':' :: (v.chars ++ (entriesTail es ++ '}' :: rest))) := by
            simp [chars, quoted]
          have hopen : ∀ cs, skipGaps ('{' :: cs) = '{' :: cs := fun _ => rfl
          have hquote : ∀ cs, skipGaps ('"' :: cs) = '"' :: cs := fun _ => rfl
          have hlength : (v.chars ++ entriesTail es).length < steps := by
            simp only [chars, List.cons_append, List.length_cons, List.length_append] at hsteps ⊢
            omega
          have hmembers := members_chars (k := k) (v := v) ih rest hlength
          have hbindings := Entries.ofBindings_of_nodup hkeys
          rw [htext, value, hopen]
          simp only [hquote, hmembers, Except.map, hbindings]

/-- A value is read from its own text. -/
theorem read_chars {v : Value} (h : v.Exact depthLimit) :
    Value.read (String.ofList v.chars) = .ok v := by
  have hend : EndsNumber [] := fun c hc => by simp at hc
  have hvalue := h.value_chars (stepsFor v.chars) [] (by unfold stepsFor; omega) hend
  rw [List.append_nil] at hvalue
  exact read_eq_ok hvalue

end Value.Exact

end Runbook

import Runbook.Proofs.Expression.Scan

/-!
# Runbook.Proofs.Expression.Splitting

Cutting a text around the operators at its top level. A cut is made at the first place at which an
operator starts at the top level (`Scan.cutTop?_eq_none_iff`, `Scan.OperatorAt.of_cutTop?`), and the
text behind it is scanned anew. Nothing is lost by that: the scan of the whole text stands outside
quotes and brackets there, too, so the new scans meet the operators that one scan meets which goes
on to the end (`Scan.cutPlaces_splitTop`). The pieces and the operators between them are the text
(`Scan.intercalate_splitTop`), and no piece shows the operator.
-/

namespace Runbook

/-- A text that stands in another one, which is longer. -/
structure Text.ProperPart (part cs : List Char) : Prop where
  isInfix : part <:+: cs
  shorter : part.length < cs.length

/-- A part of a proper part is a proper part. -/
theorem Text.ProperPart.of_isInfix {part whole cs : List Char} (h : Text.ProperPart whole cs)
    (hpart : part <:+: whole) : Text.ProperPart part cs :=
  ⟨hpart.trans h.isInfix, Nat.lt_of_le_of_lt hpart.length_le h.shorter⟩

/-- What is left without the first and the last character. -/
theorem Text.properPart_dropLast (c : Char) (cs : List Char) :
    Text.ProperPart cs.dropLast (c :: cs) :=
  ⟨(List.dropLast_prefix cs).isInfix.trans (List.suffix_cons c cs).isInfix,
    Nat.lt_succ_of_le (List.dropLast_prefix cs).length_le⟩

namespace Scan

/-- At a place of the text the operator starts, and a scan of all that is in front of it, begun in
the state `s`, ends outside quotes and brackets. -/
def OperatorAt (s : Scan) (operator cs : List Char) (place : Nat) : Prop :=
  s.run (cs.take place) = top ∧ operator <+: cs.drop place

/-- An operator is not empty and shows no quotes and no brackets. -/
structure IsOperator (operator : List Char) : Prop where
  ne_nil : operator ≠ []
  plain : ∀ c ∈ operator, delimits c = false

/-- The operators around which a text is cut into parts. -/
def connectives : List (List Char) := ["||".toList, "&&".toList]

/-- The parts of a text around the operators at its top level, without the blanks around them, if
there are two or more. -/
def split? (operator cs : List Char) : Option (List (List Char)) :=
  match splitTop operator cs with
  | first :: second :: more => some ((first :: second :: more).map Text.trim)
  | _ => none

/-- The places of the operators that a single scan meets at the top level. It never starts anew, and
it starts no operator inside another: `busy` characters of the last one are still to come. -/
def places (operator : List Char) (s : Scan) (place busy : Nat) : List Char → List Nat
  | [] => []
  | c :: cs =>
    match busy with
    | busy + 1 => places operator (s.next c) (place + 1) busy cs
    | 0 =>
      if (s.operator? operator (c :: cs)).isSome then
        place :: places operator (s.next c) (place + 1) (operator.length - 1) cs
      else places operator (s.next c) (place + 1) 0 cs

/-- The places of the operators between pieces, of which the first one stands at `place`. -/
def cutPlaces (operator : List Char) (place : Nat) : List (List Char) → List Nat
  | first :: second :: more =>
    (place + first.length) ::
      cutPlaces operator (place + first.length + operator.length) (second :: more)
  | _ => []

/-- The signs for alternatives and conjunctions are operators. -/
theorem isOperator_of_mem_connectives : ∀ operator ∈ connectives, IsOperator operator := by
  have hplain : ∀ operator ∈ connectives, operator ≠ [] ∧ ∀ c ∈ operator, delimits c = false := by
    decide
  exact fun operator hmem => ⟨(hplain operator hmem).1, (hplain operator hmem).2⟩

/-! ## operators at the top level -/

section Operators

variable {s : Scan} {operator cs before after : List Char} {place : Nat}

/-- An operator starts at the front of a text if the scan is at the top level and the text starts
with it. -/
theorem operatorAt_zero : s.OperatorAt operator cs 0 ↔ s = top ∧ operator <+: cs := Iff.rfl

/-- Behind a first part, an operator stands where it stands in the rest. -/
theorem operatorAt_append (front : List Char) :
    s.OperatorAt operator (front ++ cs) (front.length + place) ↔
      (s.run front).OperatorAt operator cs place := by
  have htake : front.take (front.length + place) = front := List.take_of_length_le (by omega)
  have hdrop : front.drop (front.length + place) = [] := List.drop_eq_nil_of_le (by omega)
  simp [OperatorAt, run_append, List.take_append, List.drop_append, htake, hdrop]

/-- What stands in a first part stands in the whole. -/
theorem OperatorAt.append_right (hne : operator ≠ []) (h : s.OperatorAt operator cs place)
    (rest : List Char) : s.OperatorAt operator (cs ++ rest) place := by
  have hplace : place ≤ cs.length := by
    by_contra hlarge
    have hdrop : cs.drop place = [] := List.drop_eq_nil_of_le (by omega)
    exact hne (List.prefix_nil.mp (hdrop ▸ h.2))
  refine ⟨?_, ?_⟩
  · rw [List.take_append_of_le_length hplace]
    exact h.1
  · rw [List.drop_append_of_le_length hplace]
    exact h.2.trans (List.prefix_append _ rest)

/-- Operators leave the top level as it is. -/
theorem IsOperator.run_top (h : IsOperator operator) : top.run operator = top :=
  (Nested.of_forall fun c hc => ⟨h.plain c hc, List.not_mem_nil⟩ : Nested [] operator).run_top

/-- What is found is what stands behind the operator. -/
theorem operator?_eq_some_iff (h : IsOperator operator) {rest : List Char} :
    s.operator? operator cs = some rest ↔ s = top ∧ cs = operator ++ rest := by
  constructor
  · intro hsome
    cases cs with
    | nil => contradiction
    | cons c cs =>
        rw [operator?] at hsome
        split at hsome
        · next htop => exact ⟨htop.1, Text.dropLead?_eq_some_iff.mp hsome⟩
        · contradiction
  · rintro ⟨rfl, rfl⟩
    obtain ⟨m, ms, rfl⟩ := List.exists_cons_of_ne_nil h.ne_nil
    rw [List.cons_append, operator?_top (h.plain m List.mem_cons_self)]
    exact Text.dropLead?_self (m :: ms) rest

/-- An operator is found exactly where one starts. -/
theorem isSome_operator?_iff (h : IsOperator operator) :
    (s.operator? operator cs).isSome ↔ s.OperatorAt operator cs 0 := by
  simp only [Option.isSome_iff_exists, operator?_eq_some_iff h, operatorAt_zero, exists_and_left]
  exact and_congr_right fun _ => exists_congr fun rest => eq_comm

/-- And none is found exactly where none does. -/
theorem operator?_eq_none_iff (h : IsOperator operator) :
    s.operator? operator cs = none ↔ ¬s.OperatorAt operator cs 0 := by
  rw [← isSome_operator?_iff h, Option.not_isSome_iff_eq_none]

end Operators

/-! ## the first operator -/

section Cuts

variable {s : Scan} {operator cs before after : List Char}

/-- A text is cut if an operator stands at its top level. -/
theorem cutTop?_eq_none_iff (h : IsOperator operator) :
    cutTop? operator s cs = none ↔ ∀ place, ¬s.OperatorAt operator cs place := by
  induction cs generalizing s with
  | nil =>
      refine ⟨fun _ place hat => h.ne_nil ?_, fun _ => rfl⟩
      simpa using hat.2
  | cons c cs ih =>
      rw [cutTop?]
      cases hop : s.operator? operator (c :: cs) with
      | some rest =>
          have hat : s.OperatorAt operator (c :: cs) 0 :=
            (isSome_operator?_iff h).mp (by simp [hop])
          simpa using ⟨0, hat⟩
      | none =>
          simp only [Option.map_eq_none_iff, ih]
          refine ⟨fun hnone place => ?_, fun hnone place => hnone (place + 1)⟩
          cases place with
          | zero => exact (operator?_eq_none_iff h).mp hop
          | succ place => exact hnone place

/-- The cut is made where an operator stands. -/
theorem OperatorAt.of_cutTop? (h : cutTop? operator s cs = some (before, after)) :
    s.OperatorAt operator cs before.length := by
  have hcs := eq_of_cutTop? h
  refine ⟨?_, ?_⟩
  · rw [hcs, List.append_assoc, List.take_left]
    exact run_of_cutTop? h
  · rw [hcs, List.append_assoc, List.drop_left]
    exact List.prefix_append operator after

/-- No operator stands in front of the cut, nor reaches over it. -/
theorem OperatorAt.le_of_cutTop? (h : IsOperator operator) {place : Nat}
    (hat : s.OperatorAt operator cs place) (hcut : cutTop? operator s cs = some (before, after)) :
    before.length ≤ place := by
  induction cs generalizing s before place with
  | nil => contradiction
  | cons c cs ih =>
      rw [cutTop?] at hcut
      cases hop : s.operator? operator (c :: cs) with
      | some rest =>
          simp only [hop, Option.some.injEq, Prod.mk.injEq] at hcut
          simp [← hcut.1]
      | none =>
          simp only [hop, Option.map_eq_some_iff, Prod.mk.injEq, Prod.exists] at hcut
          obtain ⟨b, a, hcut, rfl, rfl⟩ := hcut
          cases place with
          | zero => exact absurd hat ((operator?_eq_none_iff h).mp hop)
          | succ place => exact Nat.succ_le_succ (ih hat hcut)

/-- Nothing in front of the cut could be cut. -/
theorem cutTop?_before (hne : operator ≠ []) (h : cutTop? operator s cs = some (before, after)) :
    cutTop? operator s before = none := by
  cases hcut : cutTop? operator s before with
  | none => rfl
  | some cut =>
      obtain ⟨b, a⟩ := cut
      have hwhole := cutTop?_append hcut (operator ++ after)
      rw [← List.append_assoc, ← eq_of_cutTop? h, h] at hwhole
      obtain ⟨rfl, -⟩ := Prod.mk.inj (Option.some.inj hwhole)
      have hlength := congrArg List.length (eq_of_cutTop? hcut)
      have hpos := List.length_pos_of_ne_nil hne
      simp only [List.length_append] at hlength
      omega

end Cuts

/-! ## all operators -/

section Splits

variable {operator : List Char} (hne : operator ≠ [])
include hne

/-- A cut leaves less to be cut. -/
theorem properPart_of_cutTop? {s : Scan} {cs before after : List Char}
    (h : cutTop? operator s cs = some (before, after)) :
    Text.ProperPart before cs ∧ Text.ProperPart after cs := by
  have hcs := eq_of_cutTop? h
  have hlength := congrArg List.length hcs
  have hpos := List.length_pos_of_ne_nil hne
  simp only [List.length_append] at hlength
  exact ⟨⟨⟨[], operator ++ after, by simp [hcs]⟩, by omega⟩,
    ⟨⟨before ++ operator, [], by simp [hcs]⟩, by omega⟩⟩

/-- Induction on the cuts of a text. -/
@[elab_as_elim]
theorem splitInduction {motive : List Char → Prop}
    (whole : ∀ cs, cutTop? operator top cs = none → motive cs)
    (cut : ∀ cs before after, cutTop? operator top cs = some (before, after) → motive after →
      motive cs) (cs : List Char) : motive cs := by
  induction hlength : cs.length using Nat.strong_induction_on generalizing cs with
  | h n ih =>
      cases hcut : cutTop? operator top cs with
      | none => exact whole cs hcut
      | some sides =>
          obtain ⟨before, after⟩ := sides
          have hshorter := (properPart_of_cutTop? hne hcut).2.shorter
          exact cut cs before after hcut (ih _ (hlength ▸ hshorter) after rfl)

/-- As many cuts as characters are enough. -/
theorem splitTopSteps_eq {cs : List Char} {steps : Nat} (h : cs.length ≤ steps) :
    splitTopSteps operator steps cs = splitTop operator cs := by
  rw [splitTop]
  suffices ∀ more, cs.length ≤ more →
      splitTopSteps operator steps cs = splitTopSteps operator more cs from this _ (Nat.le_refl _)
  induction cs using splitInduction hne generalizing steps with
  | whole cs hcut =>
      intro more _
      cases steps <;> cases more <;> simp [splitTopSteps, hcut]
  | cut cs before after hcut ih =>
      intro more hmore
      have hshorter := (properPart_of_cutTop? hne hcut).2.shorter
      obtain ⟨steps, rfl⟩ : ∃ n, steps = n + 1 := ⟨steps - 1, by omega⟩
      obtain ⟨more, rfl⟩ : ∃ n, more = n + 1 := ⟨more - 1, by omega⟩
      have hrest : splitTopSteps operator steps after = splitTopSteps operator more after :=
        ih (by omega) more (by omega)
      rw [splitTopSteps, splitTopSteps, hcut]
      exact congrArg (before :: ·) hrest

/-- The first piece ends at the first operator, and the other pieces are those of the text behind
it, which is scanned anew. -/
theorem splitTop_eq_cons {cs before after : List Char}
    (h : cutTop? operator top cs = some (before, after)) :
    splitTop operator cs = before :: splitTop operator after := by
  have hshorter := (properPart_of_cutTop? hne h).2.shorter
  obtain ⟨steps, hsteps⟩ : ∃ n, cs.length = n + 1 := ⟨cs.length - 1, by omega⟩
  rw [splitTop, hsteps, splitTopSteps, h]
  exact congrArg (before :: ·) (splitTopSteps_eq hne (by omega))

end Splits

/-! ## the pieces -/

section Pieces

variable {operator cs : List Char}

/-- Splitting leaves at least one piece. -/
theorem splitTop_ne_nil (operator cs : List Char) : splitTop operator cs ≠ [] :=
  splitTopSteps_ne_nil operator cs.length cs

/-- The pieces with the operator between them are the text. -/
theorem intercalate_splitTop (hne : operator ≠ []) (cs : List Char) :
    operator.intercalate (splitTop operator cs) = cs := by
  induction cs using splitInduction hne with
  | whole cs hcut => rw [splitTop_of_eq_none hcut, List.intercalate_singleton]
  | cut cs before after hcut ih =>
      rw [splitTop_eq_cons hne hcut, List.intercalate_cons_of_ne_nil (splitTop_ne_nil _ _), ih,
        ← eq_of_cutTop? hcut]

/-- No piece can be cut any further. -/
theorem cutTop?_of_mem_splitTop (hne : operator ≠ []) :
    ∀ piece ∈ splitTop operator cs, cutTop? operator top piece = none := by
  induction cs using splitInduction hne with
  | whole cs hcut =>
      rw [splitTop_of_eq_none hcut]
      simpa using hcut
  | cut cs before after hcut ih =>
      rw [splitTop_eq_cons hne hcut]
      exact List.forall_mem_cons.mpr ⟨cutTop?_before hne hcut, ih⟩

/-- Every piece stands in the text. -/
theorem infix_of_mem_splitTop (hne : operator ≠ []) :
    ∀ piece ∈ splitTop operator cs, piece <:+: cs := by
  induction cs using splitInduction hne with
  | whole cs hcut =>
      rw [splitTop_of_eq_none hcut]
      simp
  | cut cs before after hcut ih =>
      obtain ⟨hbefore, hafter⟩ := properPart_of_cutTop? hne hcut
      rw [splitTop_eq_cons hne hcut]
      refine List.forall_mem_cons.mpr ⟨hbefore.isInfix, fun piece hpiece => ?_⟩
      exact (ih piece hpiece).trans hafter.isInfix

/-- Blanks around a text leave the operators in it where they are. -/
theorem OperatorAt.of_trim (hne : operator ≠ []) {place : Nat}
    (h : top.OperatorAt operator (Text.trim cs) place) : ∃ n, top.OperatorAt operator cs n := by
  obtain ⟨pre, post, hpre, -, hcs⟩ := Text.exists_padding cs
  have hquiet : Nested [] pre := Nested.of_forall fun c hc =>
    ⟨Text.of_isBlank (P := fun c => delimits c = false) (by decide) (hpre c hc), List.not_mem_nil⟩
  refine ⟨pre.length + place, ?_⟩
  rw [hcs, operatorAt_append, hquiet.run_top]
  exact h.append_right hne post

/-- Two pieces or more are the parts of the text, without the blanks around them. -/
theorem split?_of_cons {first second : List Char} {more : List (List Char)}
    (h : splitTop operator cs = first :: second :: more) :
    split? operator cs = some ((first :: second :: more).map Text.trim) := by
  rw [split?, h]

/-- A single piece is no split. -/
theorem split?_of_few
    (h : ∀ first second more, splitTop operator cs = first :: second :: more → False) :
    split? operator cs = none := by
  rw [split?]
  split
  · next hsplit => exact (h _ _ _ hsplit).elim
  · rfl

/-- The parts of a text are its pieces without blanks, if there are two of them or more. -/
theorem split?_eq_some_iff {parts : List (List Char)} :
    split? operator cs = some parts ↔
      parts = (splitTop operator cs).map Text.trim ∧ 2 ≤ parts.length := by
  cases hsplit : splitTop operator cs with
  | nil => exact absurd hsplit (splitTop_ne_nil operator cs)
  | cons first rest =>
      cases rest with
      | nil => simp +contextual [split?, hsplit]
      | cons second more => simp +contextual [split?_of_cons hsplit, eq_comm]

/-- A text is split exactly if an operator starts somewhere at its top level. -/
theorem split?_isSome_iff (h : IsOperator operator) :
    (split? operator cs).isSome ↔ ∃ place, top.OperatorAt operator cs place := by
  have hcut : (∃ place, top.OperatorAt operator cs place) ↔ cutTop? operator top cs ≠ none := by
    rw [ne_eq, cutTop?_eq_none_iff h, not_forall_not]
  rw [hcut, split?]
  cases hsides : cutTop? operator top cs with
  | none => simp [splitTop_of_eq_none hsides]
  | some sides =>
      obtain ⟨second, more, hsplit⟩ := splitTop_of_eq_some hsides
      simp [hsplit]

/-- Each of two or more parts leaves something of the text out. -/
theorem properPart_of_mem_split? (hne : operator ≠ []) {parts : List (List Char)}
    (h : split? operator cs = some parts) : ∀ part ∈ parts, Text.ProperPart part cs := by
  obtain ⟨rfl, hlength⟩ := split?_eq_some_iff.mp h
  intro part hpart
  obtain ⟨piece, hpiece, rfl⟩ := List.mem_map.mp hpart
  refine Text.ProperPart.of_isInfix ?_ (Text.infix_trim piece)
  cases hcut : cutTop? operator top cs with
  | none => simp [splitTop_of_eq_none hcut] at hlength
  | some sides =>
      obtain ⟨before, after⟩ := sides
      obtain ⟨hbefore, hafter⟩ := properPart_of_cutTop? hne hcut
      rw [splitTop_eq_cons hne hcut] at hpiece
      rcases List.mem_cons.mp hpiece with rfl | hmem
      · exact hbefore
      · exact hafter.of_isInfix (infix_of_mem_splitTop hne piece hmem)

end Pieces

/-! ## one scan of the whole text -/

section Places

variable {operator : List Char}

/-- The scan goes over an operator without looking for another one inside. -/
theorem places_skip {skipped : List Char} (hplain : ∀ c ∈ skipped, delimits c = false)
    (place : Nat) (rest : List Char) :
    places operator top place skipped.length (skipped ++ rest) =
      places operator top (place + skipped.length) 0 rest := by
  induction skipped generalizing place with
  | nil => rfl
  | cons c skipped ih =>
      obtain ⟨hc, hskipped⟩ := List.forall_mem_cons.mp hplain
      have hnext : top.next c = top := next_plain hc 0
      rw [List.cons_append, List.length_cons, places, hnext, ih hskipped]
      congr 1
      omega

/-- Without a cut there are no places. -/
theorem places_of_eq_none {s : Scan} {cs : List Char} (hcut : cutTop? operator s cs = none)
    (place : Nat) : places operator s place 0 cs = [] := by
  induction cs generalizing s place with
  | nil => rfl
  | cons c cs ih =>
      rw [cutTop?] at hcut
      cases hop : s.operator? operator (c :: cs) with
      | some rest => simp [hop] at hcut
      | none =>
          simp only [hop, Option.map_eq_none_iff] at hcut
          simp [places, hop, ih hcut]

variable (h : IsOperator operator)
include h

/-- The scan meets the operator at which the text is cut, and goes on with the text behind it. -/
theorem places_of_cutTop? {s : Scan} {cs before after : List Char}
    (hcut : cutTop? operator s cs = some (before, after)) (place : Nat) :
    places operator s place 0 cs =
      (place + before.length) ::
        places operator top (place + before.length + operator.length) 0 after := by
  induction cs generalizing s before place with
  | nil => contradiction
  | cons c cs ih =>
      rw [cutTop?] at hcut
      cases hop : s.operator? operator (c :: cs) with
      | some rest =>
          simp only [hop, Option.some.injEq, Prod.mk.injEq] at hcut
          obtain ⟨rfl, rfl⟩ := hcut
          obtain ⟨rfl, hcs⟩ := (operator?_eq_some_iff h).mp hop
          obtain ⟨m, ms, rfl⟩ := List.exists_cons_of_ne_nil h.ne_nil
          obtain ⟨hm, hms⟩ := List.forall_mem_cons.mp h.plain
          rw [List.cons_append] at hcs
          obtain ⟨rfl, rfl⟩ := List.cons.inj hcs
          have hnext : top.next c = top := next_plain hm 0
          have hplace : place + 1 + ms.length = place + (ms.length + 1) := by omega
          simp only [places, hop, Option.isSome_some, if_true, hnext, List.length_cons,
            List.length_nil, Nat.add_sub_cancel, places_skip hms, hplace, Nat.add_zero]
      | none =>
          simp only [hop, Option.map_eq_some_iff, Prod.mk.injEq, Prod.exists] at hcut
          obtain ⟨b, a, hcut, rfl, rfl⟩ := hcut
          have hplace : place + 1 + b.length = place + (b.length + 1) := by omega
          simp only [places, hop, Option.isSome_none, Bool.false_eq_true, if_false, ih hcut,
            List.length_cons, hplace]

/-- Scanning anew behind every operator meets the operators that one scan meets. -/
theorem cutPlaces_splitTop (cs : List Char) (place : Nat) :
    cutPlaces operator place (splitTop operator cs) = places operator top place 0 cs := by
  induction cs using splitInduction h.ne_nil generalizing place with
  | whole cs hcut => rw [splitTop_of_eq_none hcut, places_of_eq_none hcut, cutPlaces]; simp
  | cut cs before after hcut ih =>
      rw [places_of_cutTop? h hcut, ← ih, splitTop_eq_cons h.ne_nil hcut]
      obtain ⟨second, more, hafter⟩ := List.exists_cons_of_ne_nil (splitTop_ne_nil operator after)
      rw [hafter, cutPlaces]

/-- Behind an operator, the operators of the whole text are those of the text behind it. -/
theorem operatorAt_behind {cs before after : List Char}
    (hcut : cutTop? operator top cs = some (before, after)) (place : Nat) :
    top.OperatorAt operator cs (before.length + operator.length + place) ↔
      top.OperatorAt operator after place := by
  have hrun : top.run (before ++ operator) = top := by
    rw [run_append, run_of_cutTop? hcut, h.run_top]
  have hlength : before.length + operator.length = (before ++ operator).length := by simp
  rw [hlength, eq_of_cutTop? hcut, operatorAt_append, hrun]

/-- At each of the places an operator starts at the top level. -/
theorem operatorAt_of_mem_places (cs : List Char) (place : Nat) :
    ∀ found ∈ places operator top place 0 cs,
      ∃ n, found = place + n ∧ top.OperatorAt operator cs n := by
  induction cs using splitInduction h.ne_nil generalizing place with
  | whole cs hcut => simp [places_of_eq_none hcut]
  | cut cs before after hcut ih =>
      rw [places_of_cutTop? h hcut]
      have hfirst := OperatorAt.of_cutTop? hcut
      refine List.forall_mem_cons.mpr ⟨⟨before.length, rfl, hfirst⟩, fun found hfound => ?_⟩
      obtain ⟨n, rfl, hat⟩ := ih _ found hfound
      exact ⟨before.length + operator.length + n, by omega, (operatorAt_behind h hcut n).mpr hat⟩

/-- Every operator at the top level is met, or starts inside one that is. -/
theorem exists_mem_places {cs : List Char} {n : Nat} (hat : top.OperatorAt operator cs n)
    (place : Nat) : ∃ found ∈ places operator top place 0 cs,
      found ≤ place + n ∧ place + n < found + operator.length := by
  induction cs using splitInduction h.ne_nil generalizing n place with
  | whole cs hcut => exact absurd hat ((cutTop?_eq_none_iff h).mp hcut n)
  | cut cs before after hcut ih =>
      rw [places_of_cutTop? h hcut]
      have hfirst := hat.le_of_cutTop? h hcut
      by_cases hinside : n < before.length + operator.length
      · exact ⟨place + before.length, List.mem_cons_self, by omega, by omega⟩
      · obtain ⟨k, rfl⟩ := Nat.exists_eq_add_of_le (Nat.not_lt.mp hinside)
        obtain ⟨found, hfound, hle, hlt⟩ := ih ((operatorAt_behind h hcut k).mp hat)
          (place + before.length + operator.length)
        exact ⟨found, List.mem_cons_of_mem _ hfound, by omega, by omega⟩

end Places

/-- **Splitting is exact.** For `||` and for `&&`, a text has parts exactly if the operator stands
somewhere at its top level. The pieces with the operator between them are the text, the parts are
the pieces without the blanks around them, and no part shows the operator at its top level. Between
the pieces stand the operators that one scan meets which goes on over the whole text: these are all
at the top level of the text, and every other place at which the operator starts at the top level is
inside one of them. -/
theorem split?_exact {operator : List Char} (hoperator : operator ∈ connectives)
    (cs : List Char) :
    ((split? operator cs).isSome ↔ ∃ place, top.OperatorAt operator cs place) ∧
    (∀ parts, split? operator cs = some parts ↔
      parts = (splitTop operator cs).map Text.trim ∧ 2 ≤ parts.length) ∧
    operator.intercalate (splitTop operator cs) = cs ∧
    (∀ piece ∈ splitTop operator cs, ∀ place,
      ¬top.OperatorAt operator piece place ∧ ¬top.OperatorAt operator (Text.trim piece) place) ∧
    cutPlaces operator 0 (splitTop operator cs) = places operator top 0 0 cs ∧
    (∀ place ∈ places operator top 0 0 cs, top.OperatorAt operator cs place) ∧
    (∀ place, top.OperatorAt operator cs place → ∃ met ∈ places operator top 0 0 cs,
      met ≤ place ∧ place < met + operator.length) := by
  have h := isOperator_of_mem_connectives operator hoperator
  have hmet := operatorAt_of_mem_places h cs 0
  simp only [Nat.zero_add, exists_eq_left'] at hmet
  refine ⟨split?_isSome_iff h, fun _ => split?_eq_some_iff, intercalate_splitTop h.ne_nil cs, ?_,
    cutPlaces_splitTop h cs 0, hmet, fun place hat => ?_⟩
  · intro piece hpiece place
    have hnone := (cutTop?_eq_none_iff h).mp (cutTop?_of_mem_splitTop h.ne_nil piece hpiece)
    refine ⟨hnone place, fun hat => ?_⟩
    obtain ⟨n, hn⟩ := hat.of_trim h.ne_nil
    exact hnone n hn
  · simpa using exists_mem_places h hat 0

/-- Three bars in a row, brackets that do not match, operators in brackets and in quotes, and one at
the end of the text. -/
theorem split?_exact_unmatched :
    let operator := "||".toList
    let cs := "a) ||| (b || [c]\x7d 'd || \"e' || f) ||".toList
    operator ∈ connectives ∧
      split? operator cs =
        some ["a)".toList, "| (b || [c]\x7d 'd || \"e'".toList, "f)".toList, []] ∧
      cutPlaces operator 0 (splitTop operator cs) = [3, 28, 34] ∧
      places operator top 0 0 cs = [3, 28, 34] ∧
      top.OperatorAt operator cs 4 ∧ ∃ met ∈ [3, 28, 34], met ≤ 4 ∧ 4 < met + 2 := by
  intro operator cs
  have hoperator : operator ∈ connectives := by decide
  have hplaces : places operator top 0 0 cs = [3, 28, 34] := by decide
  have hat : top.OperatorAt operator cs 4 := ⟨by decide, by decide⟩
  obtain ⟨-, -, -, -, hcuts, -, hmet⟩ := split?_exact hoperator cs
  obtain ⟨met, hmem, hle, hlt⟩ := hmet 4 hat
  exact ⟨hoperator, by decide, hcuts.trans hplaces, hplaces, hat, met, hplaces ▸ hmem, hle, hlt⟩

end Scan

end Runbook

import Runbook.Text.Search
import Mathlib.Data.List.Basic

/-!
# Runbook.Proofs.Text.Search

Searching in a text that is put together from parts. A lead that fits into a first part is found in
the part if it is found in the whole (`dropLead?_of_append`), and a cut passes over a part that does
not have the first character of the mark (`cut?_append_of_notMem`). A mark that is one character
twice is found behind a part in which the character stands only alone (`Undoubled`), and what is in
front of it is such a part and does not end with the character (`Precedes`). Pieces with a mark
between them are split into the pieces again, as long as the mark is in none of them
(`splitOnChar_append`).
-/

namespace Runbook.Text

/-- What holds of all characters of a text is decided by going through the text, and not through
every character that there is. -/
instance (priority := high) decidableForallMem {p : Char → Prop} [DecidablePred p]
    (cs : List Char) : Decidable (∀ c ∈ cs, p c) :=
  List.decidableBAll p cs

/-! ## leads -/

/-- A lead is dropped with more behind the text. -/
theorem dropLead?_append {lead cs tail : List Char} (h : dropLead? lead cs = some tail)
    (rest : List Char) : dropLead? lead (cs ++ rest) = some (tail ++ rest) := by
  rw [dropLead?_eq_some_iff] at h ⊢
  rw [h, List.append_assoc]

/-- A lead that fits into the first text is found there. -/
theorem dropLead?_of_append {lead cs rest tail : List Char} (hfits : lead.length ≤ cs.length)
    (h : dropLead? lead (cs ++ rest) = some tail) :
    dropLead? lead cs = some (cs.drop lead.length) := by
  rw [dropLead?_eq_some_iff] at h ⊢
  have htake : (cs ++ rest).take lead.length = lead := by simp [h]
  rw [List.take_append_of_le_length hfits] at htake
  conv => rhs; rw [← htake]
  simp [Nat.min_eq_left hfits]

/-- A lead that is longer than a first part has the part in it. -/
theorem mem_of_dropLead?_append {lead cs rest tail : List Char} {c : Char}
    (hlong : cs.length < lead.length) (h : dropLead? lead (cs ++ rest) = some tail) (hc : c ∈ cs) :
    c ∈ lead := by
  rw [dropLead?_eq_some_iff] at h
  have htake : (lead ++ tail).take cs.length = cs := by simp [← h]
  rw [List.take_append_of_le_length (Nat.le_of_lt hlong)] at htake
  rw [← htake] at hc
  exact List.mem_of_mem_take hc

/-- Another first character is no lead. -/
theorem dropLead?_cons_ne {m c : Char} (hne : m ≠ c) (ms cs : List Char) :
    dropLead? (m :: ms) (c :: cs) = none := by
  simp [dropLead?, hne]

/-- What stands behind the lead is left. -/
theorem dropLead?_self (lead rest : List Char) : dropLead? lead (lead ++ rest) = some rest :=
  dropLead?_eq_some_iff.2 rfl

/-! ## cuts -/

/-- A mark is found behind a text without its first character. -/
theorem cut?_append_of_notMem {m : Char} {pre : List Char} (hm : m ∉ pre) (ms rest : List Char) :
    cut? (m :: ms) (pre ++ rest) =
      (cut? (m :: ms) rest).map fun (before, after) => (pre ++ before, after) := by
  induction pre with
  | nil => simp
  | cons c pre ih =>
      rw [List.mem_cons, not_or] at hm
      rw [List.cons_append, cut?, dropLead?_cons_ne hm.1, ih hm.2, Option.map_map]
      rfl

/-- A mark is not found without its first character. -/
theorem cut?_eq_none_of_notMem {m : Char} {cs : List Char} (hm : m ∉ cs) (ms : List Char) :
    cut? (m :: ms) cs = none := by
  have h := cut?_append_of_notMem hm ms []
  simpa [cut?, dropLead?] using h

/-- A text is not cut just when the mark does not stand in it. -/
theorem cut?_eq_none_iff {mark cs : List Char} : cut? mark cs = none ↔ ¬mark <:+: cs := by
  constructor
  · intro hnone hmark
    induction cs with
    | nil =>
        obtain rfl := List.infix_nil.mp hmark
        contradiction
    | cons c cs ih =>
        rw [cut?] at hnone
        split at hnone
        · contradiction
        · next hlead =>
            rcases List.infix_cons_iff.mp hmark with ⟨rest, hfront⟩ | hinside
            · rw [dropLead?_eq_some_iff.mpr hfront.symm] at hlead
              contradiction
            · exact ih (Option.map_eq_none_iff.mp hnone) hinside
  · intro hmark
    cases hcut : cut? mark cs with
    | none => rfl
    | some cut => exact absurd ⟨cut.1, cut.2, (eq_of_cut? hcut).symm⟩ hmark

/-- A mark at the front is found there. -/
theorem cut?_self {m : Char} (ms rest : List Char) :
    cut? (m :: ms) (m :: ms ++ rest) = some ([], rest) := by
  have hlead : dropLead? (m :: ms) (m :: (ms ++ rest)) = some rest :=
    dropLead?_self (m :: ms) rest
  rw [List.cons_append, cut?, hlead]

/-- A text is cut at a character where it stands for the first time. -/
theorem cut?_character_eq_some_iff {m : Char} {cs before after : List Char} :
    cut? [m] cs = some (before, after) ↔ cs = before ++ m :: after ∧ m ∉ before := by
  have hcut : ∀ {front back : List Char}, m ∉ front →
      cut? [m] (front ++ m :: back) = some (front, back) := by
    intro front back hfront
    have hself : cut? [m] (m :: back) = some ([], back) := cut?_self [] back
    rw [cut?_append_of_notMem hfront, hself]
    simp
  constructor
  · intro h
    have hmem : m ∈ cs := by simp [eq_of_cut? h]
    obtain ⟨front, back, rfl, hfront⟩ := List.eq_append_cons_of_mem hmem
    rw [hcut hfront] at h
    obtain ⟨rfl, rfl⟩ := Prod.mk.inj (Option.some.inj h)
    exact ⟨rfl, hfront⟩
  · rintro ⟨rfl, hbefore⟩
    exact hcut hbefore

/-! ## doubled characters -/

/-- The character does not stand twice in a row. -/
def Undoubled (m : Char) (cs : List Char) : Prop := ¬[m, m] <:+: cs

instance (m : Char) (cs : List Char) : Decidable (Undoubled m cs) :=
  inferInstanceAs (Decidable (¬[m, m] <:+: cs))

/-- A character that is not in the text is not doubled in it. -/
theorem undoubled_of_notMem {m : Char} {cs : List Char} (hm : m ∉ cs) : Undoubled m cs :=
  fun h => hm (h.subset List.mem_cons_self)

theorem Undoubled.ne {m c d : Char} {cs : List Char} (h : Undoubled m (c :: d :: cs))
    (hc : c = m) : d ≠ m := by
  rintro rfl
  exact h ⟨[], cs, by simp [hc]⟩

/-- Nor is it in the rest of an undoubled text. -/
theorem Undoubled.tail {m c : Char} {cs : List Char} (h : Undoubled m (c :: cs)) :
    Undoubled m cs :=
  fun hcs => h (List.infix_cons hcs)

/-- Two parts are put together without a doubled character if it does not stand on both sides of the
seam. -/
theorem Undoubled.append {m : Char} {first second : List Char} (hfirst : Undoubled m first)
    (hsecond : Undoubled m second)
    (hseam : first.getLast? = some m → second.head? ≠ some m) : Undoubled m (first ++ second) := by
  induction first with
  | nil => exact hsecond
  | cons c first ih =>
      intro hdouble
      rw [List.cons_append] at hdouble
      rcases List.infix_cons_iff.mp hdouble with hfront | hinside
      · obtain ⟨rfl, hnext⟩ := List.cons_prefix_cons.mp hfront
        obtain ⟨rest, hrest⟩ := hnext
        cases first with
        | nil =>
            refine hseam rfl ?_
            rw [← List.nil_append second, ← hrest]
            rfl
        | cons d first => exact hfirst.ne rfl (List.cons.inj hrest).1.symm
      · refine ih hfirst.tail (fun hlast => hseam ?_) hinside
        rw [List.getLast?_cons, hlast]
        rfl

/-- The search for the doubled character tells if there is one. -/
theorem occurs_doubled_eq_false_iff {m : Char} {cs : List Char} :
    occurs [m, m] cs = false ↔ Undoubled m cs := by
  rw [occurs, Option.isSome_eq_false_iff, Option.isNone_iff_eq_none]
  exact cut?_eq_none_iff

/-- The first doubled character is behind a part without one that does not end with it. -/
theorem Undoubled.cut?_append {m : Char} {cs : List Char} (h : Undoubled m cs)
    (hlast : cs.getLast? ≠ some m) (rest : List Char) :
    cut? [m, m] (cs ++ m :: m :: rest) = some (cs, rest) := by
  induction cs with
  | nil => exact cut?_self [m] rest
  | cons c cs ih =>
      have hnone : dropLead? [m, m] (c :: (cs ++ m :: m :: rest)) = none := by
        by_cases hc : m = c
        · cases cs with
          | nil => exact absurd (by simp [hc]) hlast
          | cons d cs => simp [dropLead?, Ne.symm (h.ne hc.symm)]
        · exact dropLead?_cons_ne hc _ _
      have hlast' : cs.getLast? ≠ some m := by
        intro hcs
        rw [List.getLast?_cons, hcs] at hlast
        exact hlast rfl
      rw [List.cons_append, cut?, hnone, ih h.tail hlast']
      rfl

/-- The text can stand in front of the first doubled character: none is in it, and none begins in
it. -/
def Precedes (m : Char) (cs : List Char) : Prop := Undoubled m (cs ++ [m])

instance (m : Char) (cs : List Char) : Decidable (Precedes m cs) :=
  inferInstanceAs (Decidable (Undoubled m (cs ++ [m])))

/-- No doubled character stands before the first one. -/
theorem Precedes.undoubled {m : Char} {cs : List Char} (h : Precedes m cs) : Undoubled m cs :=
  fun hcs => h (hcs.trans (List.infix_append' [] cs [m]))

/-- The text before a doubled character does not end with it: the double would start earlier. -/
theorem Precedes.getLast?_ne {m : Char} {cs : List Char} (h : Precedes m cs) :
    cs.getLast? ≠ some m := by
  intro hlast
  obtain ⟨front, rfl⟩ := List.getLast?_eq_some_iff.mp hlast
  exact h ⟨front, [], by simp⟩

/-- A text with no doubled character, at its end or before, precedes one. -/
theorem Undoubled.precedes {m : Char} {cs : List Char} (h : Undoubled m cs)
    (hlast : cs.getLast? ≠ some m) : Precedes m cs :=
  h.append (fun hdouble => by simpa using hdouble.length_le) fun heq => absurd heq hlast

/-- Two such texts in a row do too, if no double stands at their seam. -/
theorem Undoubled.append_precedes {m : Char} {first second : List Char} (hfirst : Undoubled m first)
    (hsecond : Precedes m second)
    (hseam : first.getLast? = some m → (second ++ [m]).head? ≠ some m) :
    Precedes m (first ++ second) := by
  rw [Precedes, List.append_assoc]
  exact hfirst.append hsecond hseam

/-- What is behind a doubled character is behind the first one. -/
theorem Precedes.suffix {m : Char} {before rest front back : List Char} (h : Precedes m before)
    (heq : before ++ ([m, m] ++ rest) = front ++ ([m, m] ++ back)) : back <:+ rest := by
  have hfits : before.length ≤ front.length := by
    by_contra hlong
    have hfront : front ++ [m, m] <+: front ++ ([m, m] ++ back) := ⟨back, by simp⟩
    have hbefore : before ++ [m] <+: front ++ ([m, m] ++ back) :=
      ⟨m :: rest, by rw [← heq]; simp⟩
    have hlead := List.prefix_of_prefix_length_le hfront hbefore (by simp; omega)
    exact h ((List.suffix_append front [m, m]).isInfix.trans hlead.isInfix)
  have hback : back <:+ front ++ ([m, m] ++ back) := ⟨front ++ [m, m], by simp⟩
  have hrest : rest <:+ front ++ ([m, m] ++ back) := ⟨before ++ [m, m], by rw [← heq]; simp⟩
  have hlength := congrArg List.length heq
  simp only [List.length_append, List.length_cons, List.length_nil] at hlength
  exact List.suffix_of_suffix_length_le hback hrest (by omega)

/-- A text is cut where the character stands twice for the first time. -/
theorem cut?_doubled_eq_some_iff {m : Char} {cs before after : List Char} :
    cut? [m, m] cs = some (before, after) ↔
      cs = before ++ ([m, m] ++ after) ∧ Precedes m before := by
  constructor
  · intro h
    refine ⟨by rw [eq_of_cut? h, List.append_assoc], ?_⟩
    induction cs generalizing before with
    | nil => simp [cut?, dropLead?] at h
    | cons c cs ih =>
        rw [cut?] at h
        split at h
        · obtain ⟨rfl, -⟩ := Prod.mk.inj (Option.some.inj h)
          intro hdouble
          simpa using hdouble.length_le
        · next hlead =>
            obtain ⟨⟨front, rest⟩, hcut, heq⟩ := Option.map_eq_some_iff.mp h
            obtain ⟨rfl, rfl⟩ := Prod.mk.inj heq
            intro hdouble
            rcases List.infix_cons_iff.mp hdouble with hfront | hinside
            · have hcs : c :: cs = c :: (front ++ [m]) ++ m :: rest := by
                simp [eq_of_cut? hcut]
              obtain ⟨tail, htail⟩ := hfront.trans (hcs ▸ List.prefix_append _ _)
              rw [dropLead?_eq_some_iff.mpr htail.symm] at hlead
              contradiction
            · exact ih hcut hinside
  · rintro ⟨rfl, h⟩
    exact h.undoubled.cut?_append h.getLast?_ne after

/-- The first doubled character is looked for behind a part without one, if none stands across the
seam. -/
theorem Undoubled.cut?_seam {m : Char} {first second : List Char} (hfirst : Undoubled m first)
    (hseam : first.getLast? = some m → second.head? ≠ some m) :
    cut? [m, m] (first ++ second) =
      (cut? [m, m] second).map fun (before, after) => (first ++ before, after) := by
  cases hcut : cut? [m, m] second with
  | none => exact cut?_eq_none_iff.mpr (hfirst.append (cut?_eq_none_iff.mp hcut) hseam)
  | some cut =>
      obtain ⟨before, after⟩ := cut
      obtain ⟨rfl, hbefore⟩ := cut?_doubled_eq_some_iff.mp hcut
      refine cut?_doubled_eq_some_iff.mpr ⟨by simp, hfirst.append_precedes hbefore fun hlast => ?_⟩
      cases before with
      | nil => exact hseam hlast
      | cons c before => exact hseam hlast

/-! ## pieces -/

/-- There is always a piece. -/
theorem splitOnChar_ne_nil (mark : Char) (cs : List Char) : splitOnChar mark cs ≠ [] := by
  cases cs with
  | nil => simp [splitOnChar]
  | cons c cs =>
      rw [splitOnChar]
      split
      · simp
      · split <;> simp

/-- The mark between two texts separates the pieces of the one from those of the other. -/
theorem splitOnChar_append_mark (mark : Char) (front back : List Char) :
    splitOnChar mark (front ++ mark :: back) =
      splitOnChar mark front ++ splitOnChar mark back := by
  induction front with
  | nil => simp [splitOnChar]
  | cons c front ih =>
      rw [List.cons_append, splitOnChar, ih, splitOnChar]
      split
      · rfl
      · cases hsplit : splitOnChar mark front with
        | nil => exact absurd hsplit (splitOnChar_ne_nil mark front)
        | cons piece pieces => rfl

/-- A text without the mark is one piece. -/
theorem splitOnChar_of_notMem {mark : Char} {piece : List Char} (hpiece : mark ∉ piece) :
    splitOnChar mark piece = [piece] := by
  induction piece with
  | nil => rfl
  | cons c piece ih =>
      rw [List.mem_cons, not_or] at hpiece
      rw [splitOnChar, if_neg (Ne.symm hpiece.1), ih hpiece.2]

/-- A piece ends at the first mark. -/
theorem splitOnChar_append {mark : Char} {piece : List Char} (hpiece : mark ∉ piece)
    (rest : List Char) :
    splitOnChar mark (piece ++ mark :: rest) = piece :: splitOnChar mark rest := by
  rw [splitOnChar_append_mark, splitOnChar_of_notMem hpiece, List.singleton_append]

/-- No piece has the mark. -/
theorem notMem_of_mem_splitOnChar {mark : Char} {cs piece : List Char}
    (h : piece ∈ splitOnChar mark cs) : mark ∉ piece := by
  induction cs generalizing piece with
  | nil =>
      rw [splitOnChar, List.mem_singleton] at h
      simp [h]
  | cons c cs ih =>
      rw [splitOnChar] at h
      split at h
      · rcases List.mem_cons.mp h with rfl | h
        · simp
        · exact ih h
      · next hc =>
          split at h
          · rw [List.mem_singleton.mp h, List.mem_singleton]
            exact Ne.symm hc
          · next first pieces hsplit =>
              rw [hsplit] at ih
              rcases List.mem_cons.mp h with rfl | h
              · rw [List.mem_cons, not_or]
                exact ⟨Ne.symm hc, ih List.mem_cons_self⟩
              · exact ih (List.mem_cons_of_mem _ h)

end Runbook.Text

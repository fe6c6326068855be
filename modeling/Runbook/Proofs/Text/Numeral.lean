import Runbook.Proofs.Text.Blank
import Runbook.Text.Numeral

/-!
# Runbook.Proofs.Text.Numeral

Which numbers the texts of whole numbers spell (`Text.SpellsNatural`, `Text.SpellsInteger`): one
ASCII digit or more, with leading zeros or not, behind a sign or not. The readers accept these texts
and no others, as far as the number fits the word that it is meant for
(`Text.natural?_eq_some_iff`, `Text.integer?_eq_some_iff`); what does not fit is refused, and not
wrapped.
-/

namespace Runbook

/-- One digit or more. -/
def DigitText (cs : List Char) : Prop := cs ≠ [] ∧ ∀ c ∈ cs, c.isDigit = true

namespace Text

/-- The text spells a natural number, behind a plus sign or without one. -/
inductive SpellsNatural : List Char → Nat → Prop
  | unsigned {cs : List Char} (h : DigitText cs) : SpellsNatural cs (valueOfDigits cs)
  | plus {cs : List Char} (h : DigitText cs) : SpellsNatural ('+' :: cs) (valueOfDigits cs)

/-- The text spells an integer, behind a sign or without one. -/
inductive SpellsInteger : List Char → Int → Prop
  | natural {cs : List Char} {n : Nat} (h : SpellsNatural cs n) : SpellsInteger cs n
  | minus {cs : List Char} (h : DigitText cs) : SpellsInteger ('-' :: cs) (-valueOfDigits cs)

variable {limit n : Nat} {cs : List Char} {i : Int}

/-! ## natural numbers -/

/-- Digits are read as their value, below the limit. -/
theorem digits?_eq_some_iff :
    digits? limit cs = some n ↔ DigitText cs ∧ n = valueOfDigits cs ∧ n < limit := by
  simp only [digits?, DigitText, Option.ite_none_right_eq_some, Option.some.injEq,
    Bool.and_eq_true, Bool.not_eq_true', List.isEmpty_eq_false_iff, List.all_eq_true,
    decide_eq_true_eq]
  constructor
  · rintro ⟨⟨hdigits, hfits⟩, hvalue⟩
    subst hvalue
    exact ⟨hdigits, rfl, hfits⟩
  · rintro ⟨hdigits, hvalue, hfits⟩
    subst hvalue
    exact ⟨⟨hdigits, hfits⟩, rfl⟩

/-- A sign is no digit. -/
theorem not_digitText_cons {c : Char} (hc : c.isDigit = false) (rest : List Char) :
    ¬DigitText (c :: rest) := by
  intro h
  have hdigit := h.2 c List.mem_cons_self
  rw [hc] at hdigit
  contradiction

/-- Digits spell their value and no other number. -/
theorem spellsNatural_iff_of_digitText (h : DigitText cs) :
    SpellsNatural cs n ↔ n = valueOfDigits cs := by
  constructor
  · intro hspells
    cases hspells with
    | unsigned => rfl
    | plus => exact absurd h (not_digitText_cons (by decide) _)
  · intro hvalue
    exact hvalue ▸ .unsigned h

/-- A number is written with digits, behind a sign or without one. -/
theorem eq_plus_or_isDigit (h : SpellsNatural cs n) {c : Char} (hc : c ∈ cs) :
    c = '+' ∨ c.isDigit = true := by
  cases h with
  | unsigned hdigits => exact .inr (hdigits.2 c hc)
  | plus hdigits => exact (List.mem_cons.mp hc).imp id (hdigits.2 c)

/-- What spells a number has no outer blanks. -/
theorem solid_of_spellsNatural (h : SpellsNatural cs n) : Solid cs := by
  have hne : cs ≠ [] := by
    cases h with
    | unsigned hdigits => exact hdigits.1
    | plus => exact List.cons_ne_nil _ _
  refine solid_of_forall hne fun c hc => ?_
  rcases eq_plus_or_isDigit h hc with rfl | hdigit
  · decide
  · exact isBlank_of_isDigit hdigit

/-- A text spells one number at most. -/
theorem SpellsNatural.unique {m : Nat} (hm : SpellsNatural cs m) (hn : SpellsNatural cs n) :
    m = n := by
  cases hm with
  | unsigned h => exact ((spellsNatural_iff_of_digitText h).mp hn).symm
  | plus h =>
      cases hn with
      | unsigned hsign => exact absurd hsign (not_digitText_cons (by decide) _)
      | plus => rfl

/-- A natural number is read from the texts that spell it, unless it is too large. -/
theorem natural?_eq_some_iff : natural? limit cs = some n ↔ SpellsNatural cs n ∧ n < limit := by
  unfold natural?
  split
  · next rest =>
      rw [digits?_eq_some_iff]
      constructor
      · rintro ⟨hdigits, hvalue, hfits⟩
        exact ⟨hvalue ▸ .plus hdigits, hfits⟩
      · rintro ⟨hspells, hfits⟩
        cases hspells with
        | unsigned h => exact absurd h (not_digitText_cons (by decide) rest)
        | plus h => exact ⟨h, rfl, hfits⟩
  · next hsign =>
      rw [digits?_eq_some_iff]
      constructor
      · rintro ⟨hdigits, hvalue, hfits⟩
        exact ⟨hvalue ▸ .unsigned hdigits, hfits⟩
      · rintro ⟨hspells, hfits⟩
        cases hspells with
        | unsigned h => exact ⟨h, rfl, hfits⟩
        | plus h => exact absurd rfl (hsign _)

/-- What is written without a sign and leading zeros spells the number. -/
theorem spellsNatural_digits (n : Nat) : SpellsNatural (digits n) n :=
  (natural?_eq_some_iff.mp (natural?_digits (Nat.lt_succ_self n))).1

/-! ## integers -/

/-- Behind a minus there are digits only, and one more number fits. -/
theorem integer?_minus (rest : List Char) :
    integer? ('-' :: rest) = (digits? (signedLimit + 1) rest).map fun n : Nat => -(n : Int) := by
  rw [integer?]
  cases digits? (signedLimit + 1) rest <;> simp

/-- Without a minus an integer is a natural number. -/
theorem integer?_of_head_ne (h : ∀ rest, cs ≠ '-' :: rest) :
    integer? cs = (natural? signedLimit cs).map fun n : Nat => (n : Int) := by
  unfold integer?
  split
  · next rest => exact absurd rfl (h rest)
  · rfl

/-- An integer is read from the texts that spell it, unless it is out of the range of a signed
word. -/
theorem integer?_eq_some_iff :
    integer? cs = some i ↔
      SpellsInteger cs i ∧ -(signedLimit : Int) ≤ i ∧ i < (signedLimit : Int) := by
  have hlimit : 0 < signedLimit := by decide
  by_cases hminus : ∃ rest, cs = '-' :: rest
  · obtain ⟨rest, rfl⟩ := hminus
    simp only [integer?_minus, Option.map_eq_some_iff, digits?_eq_some_iff]
    constructor
    · rintro ⟨n, ⟨hdigits, hvalue, hfits⟩, hi⟩
      subst hvalue hi
      exact ⟨.minus hdigits, by omega, by omega⟩
    · rintro ⟨hspells, hlower, hupper⟩
      cases hspells with
      | natural h =>
          cases h with
          | unsigned h => exact absurd h (not_digitText_cons (by decide) rest)
      | minus h => exact ⟨_, ⟨h, rfl, by omega⟩, rfl⟩
  · have hsign : ∀ rest, cs ≠ '-' :: rest := fun rest hrest => hminus ⟨rest, hrest⟩
    simp only [integer?_of_head_ne hsign, Option.map_eq_some_iff, natural?_eq_some_iff]
    constructor
    · rintro ⟨n, ⟨hspells, hfits⟩, hi⟩
      subst hi
      exact ⟨.natural hspells, by omega, by omega⟩
    · rintro ⟨hspells, hlower, hupper⟩
      cases hspells with
      | natural h => exact ⟨_, ⟨h, by omega⟩, rfl⟩
      | minus h => exact absurd rfl (hsign _)

end Text

end Runbook

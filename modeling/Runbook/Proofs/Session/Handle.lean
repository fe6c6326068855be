import Runbook.Proofs.Text.Blank
import Runbook.Proofs.Text.Numeral
import Runbook.Session
import Mathlib.Algebra.Group.Nat.Defs

/-!
# Runbook.Proofs.Session.Handle

Which handles the texts of handles spell. Between blanks stands a natural number, with leading zeros
or not and behind a plus sign or without one, and in front of it the word for a session or nothing
(`SessionHandle.Spells`). These texts are read if the number is a word, and no others; a text that
is refused is named in the error as it was given (`SessionHandle.ofText_exact`).
-/

namespace Runbook.SessionHandle

open Text

/-- The text spells the number of a session. -/
inductive Spells : List Char → Nat → Prop
  | bare {number : List Char} {n : Nat} (h : SpellsNatural number n) : Spells number n
  | worded {number : List Char} {n : Nat} (h : SpellsNatural number n) : Spells (word ++ number) n

variable {cs : List Char} {n : Nat}

/-! ## the word in front of the number -/

/-- No number starts like the word. -/
theorem dropLead?_word_eq_none (h : SpellsNatural cs n) : dropLead? word cs = none := by
  by_contra hsome
  obtain ⟨rest, hrest⟩ := Option.ne_none_iff_exists'.mp hsome
  have hmem : 's' ∈ cs := by
    rw [dropLead?_eq_some_iff.mp hrest]
    exact List.mem_append_left rest (by decide)
  cases h with
  | unsigned hdigits => exact absurd (hdigits.2 's' hmem) (by decide)
  | plus hdigits =>
      rcases List.mem_cons.mp hmem with hsign | hdigit
      · contradiction
      · exact absurd (hdigits.2 's' hdigit) (by decide)

/-- A handle is spelled by its number, with the word before it or without. -/
theorem spells_iff : Spells cs n ↔ SpellsNatural ((dropLead? word cs).getD cs) n := by
  constructor
  · intro hspells
    cases hspells with
    | bare h => rwa [dropLead?_word_eq_none h]
    | worded h => rwa [dropLead?_eq_some_iff.mpr rfl]
  · intro h
    cases hlead : dropLead? word cs with
    | none => exact .bare (by rwa [hlead] at h)
    | some number =>
        rw [hlead] at h
        exact dropLead?_eq_some_iff.mp hlead ▸ .worded h

/-- A text spells at most one handle. -/
theorem Spells.unique {m : Nat} (hm : Spells cs m) (hn : Spells cs n) : m = n :=
  (spells_iff.mp hm).unique (spells_iff.mp hn)

/-! ## reading -/

/-- A handle is read from the texts that spell its number, unless it is too large. -/
theorem ofText_eq_ok_iff {t : String} {handle : SessionHandle} :
    ofText t = .ok handle ↔ Spells (trim t.toList) handle.id ∧ handle.id < 2 ^ 64 := by
  obtain ⟨id⟩ := handle
  have hread : natural? wordLimit ((dropLead? word (trim t.toList)).getD (trim t.toList)) =
      some id ↔ Spells (trim t.toList) id ∧ id < 2 ^ 64 := by
    rw [natural?_eq_some_iff, spells_iff]
    rfl
  rw [← hread, ofText]
  cases natural? wordLimit ((dropLead? word (trim t.toList)).getD (trim t.toList)) <;> simp

/-- A text that is refused is named in the error. -/
theorem ofText_eq_error_iff {t : String} {error : SessionError} :
    ofText t = .error error ↔ error = .badHandle t ∧ ¬∃ handle, ofText t = .ok handle := by
  rw [ofText]
  cases natural? wordLimit ((dropLead? word (trim t.toList)).getD (trim t.toList)) with
  | none => simp [eq_comm]
  | some n => simp

/-- The only error is that of a text which, trimmed, spells no number below `2 ^ 64`. -/
theorem ofText_eq_error_iff_spells {t : String} {error : SessionError} :
    ofText t = .error error ↔ error = .badHandle t ∧
      ((∃ n, Spells (trim t.toList) n ∧ 2 ^ 64 ≤ n) ∨ ¬∃ n, Spells (trim t.toList) n) := by
  rw [ofText_eq_error_iff]
  refine and_congr_right fun _ => ⟨fun hnone => ?_, ?_⟩
  · by_cases hspells : ∃ n, Spells (trim t.toList) n
    · obtain ⟨n, hn⟩ := hspells
      refine .inl ⟨n, hn, Nat.not_lt.mp fun hfits => hnone ⟨⟨n⟩, ?_⟩⟩
      exact ofText_eq_ok_iff.mpr ⟨hn, hfits⟩
    · exact .inr hspells
  · rintro hlarge ⟨handle, hread⟩
    obtain ⟨hspells, hfits⟩ := ofText_eq_ok_iff.mp hread
    rcases hlarge with ⟨n, hn, hlarge⟩ | hnothing
    · have hsame := hspells.unique hn
      omega
    · exact hnothing ⟨_, hspells⟩

/-- What spells a number is read, whatever blanks are around it. -/
theorem ofText_padded {handle : SessionHandle} (hfits : handle.id < 2 ^ 64) (hsolid : Solid cs)
    (hspells : Spells cs handle.id) {pre post : List Char} (hpre : Blanks pre)
    (hpost : Blanks post) :
    ofText (String.ofList pre ++ String.ofList cs ++ String.ofList post) = .ok handle := by
  have htrim : trim (String.ofList pre ++ String.ofList cs ++ String.ofList post).toList = cs := by
    simpa using trim_padded hpre hpost hsolid
  rw [ofText_eq_ok_iff, htrim]
  exact ⟨hspells, hfits⟩

theorem text_eq (handle : SessionHandle) : handle.text = "session-" ++ toString handle.id := by
  rw [text, String.ofList_append]
  rfl

section Written

variable {handle : SessionHandle} (hfits : handle.id < 2 ^ 64) {pre post : List Char}
  (hpre : Blanks pre) (hpost : Blanks post)
include hfits hpre hpost

/-- The number of a handle is read back, with blanks around it or without. -/
theorem ofText_padded_number :
    ofText (String.ofList pre ++ toString handle.id ++ String.ofList post) = .ok handle := by
  have hnumber := spellsNatural_digits handle.id
  exact ofText_padded hfits (solid_of_spellsNatural hnumber) (.bare hnumber) hpre hpost

/-- So is the text of a handle. -/
theorem ofText_padded_text :
    ofText (String.ofList pre ++ handle.text ++ String.ofList post) = .ok handle := by
  have hnumber := spellsNatural_digits handle.id
  have hword : Solid word := solid_of_forall (by decide) (by decide)
  have hsolid : Solid (word ++ digits handle.id) :=
    hword.append (solid_of_spellsNatural hnumber) []
  exact ofText_padded hfits hsolid (.worded hnumber) hpre hpost

end Written

/-- **The text of a handle.** A handle that fits a word is read from its text, which is `session-`
and its number, and from the number alone, with any blanks around. A text is read exactly if between
blanks it spells a number that fits a word, behind `session-` or not: an optional plus sign and
digits. The handle has this number, and is read from its own text again. A text whose number is too
large, and every text that spells none, is refused and named in the error as it was given. -/
theorem ofText_exact :
    (∀ (handle : SessionHandle) (pre post : List Char), handle.id < 2 ^ 64 → Blanks pre →
      Blanks post →
        handle.text = "session-" ++ toString handle.id ∧
        ofText (String.ofList pre ++ handle.text ++ String.ofList post) = .ok handle ∧
        ofText (String.ofList pre ++ toString handle.id ++ String.ofList post) = .ok handle) ∧
    (∀ t handle, ofText t = .ok handle ↔
      Spells (trim t.toList) handle.id ∧ handle.id < 2 ^ 64) ∧
    (∀ t handle, ofText t = .ok handle → ofText handle.text = .ok handle) ∧
    (∀ t error, ofText t = .error error ↔ error = .badHandle t ∧
      ((∃ n, Spells (trim t.toList) n ∧ 2 ^ 64 ≤ n) ∨ ¬∃ n, Spells (trim t.toList) n)) := by
  refine ⟨?_, fun _ _ => ofText_eq_ok_iff, ?_, fun _ _ => ofText_eq_error_iff_spells⟩
  · intro handle pre post hfits hpre hpost
    exact ⟨handle.text_eq, ofText_padded_text hfits hpre hpost,
      ofText_padded_number hfits hpre hpost⟩
  · intro t handle hread
    have hfits := (ofText_eq_ok_iff.mp hread).2
    simpa using ofText_padded_text hfits blanks_nil blanks_nil

/-- The largest handle with blanks of two kinds around it, its number behind a plus sign and a zero,
and the number behind it. -/
theorem ofText_exact_largest :
    let largest : SessionHandle := ⟨18446744073709551615⟩
    largest.id < 2 ^ 64 ∧ Blanks ['\t', ' '] ∧ Blanks ['\u3000'] ∧
      ofText "\t session-18446744073709551615\u3000" = .ok largest ∧
      ofText "\t 18446744073709551615\u3000" = .ok largest ∧
      ofText " session-+018446744073709551615" = .ok largest ∧
      ofText "session-18446744073709551615" = .ok largest ∧
      ofText " 18446744073709551616" = .error (.badHandle " 18446744073709551616") := by
  intro largest
  have hfits : largest.id < 2 ^ 64 := by decide
  have hpre : Blanks ['\t', ' '] := by unfold Blanks; decide
  have hpost : Blanks ['\u3000'] := by unfold Blanks; decide
  have hsigned : DigitText "018446744073709551615".toList := ⟨by decide, by decide⟩
  have hlarge : DigitText "18446744073709551616".toList := ⟨by decide, by decide⟩
  obtain ⟨hwritten, hread, hagain, hrefused⟩ := ofText_exact
  obtain ⟨-, htext, hnumber⟩ := hwritten largest ['\t', ' '] ['\u3000'] hfits hpre hpost
  have hplus : ofText " session-+018446744073709551615" = .ok largest :=
    (hread _ largest).mpr ⟨.worded (.plus hsigned), hfits⟩
  refine ⟨hfits, hpre, hpost, ?_, ?_, hplus, ?_, ?_⟩
  · exact (congrArg ofText (by decide)).trans htext
  · exact (congrArg ofText (by decide)).trans hnumber
  · exact (congrArg ofText (by decide)).trans (hagain _ largest hplus)
  · exact (hrefused _ _).mpr ⟨rfl, .inl ⟨_, .bare (.unsigned hlarge), by decide⟩⟩

end Runbook.SessionHandle

import Runbook.Proofs.Text.Blank

/-!
# Runbook.Proofs.Text.Words

The words of a text. A text is made of words if these stand in it in their order, with blanks
between them and perhaps around them (`Text.Spaced`); every text is made of its words and of no
others (`Text.words_eq_iff`), so words with blanks put between them are found again.
-/

namespace Runbook.Text

/-- One character or more, and no blank among them. -/
def WordText (cs : List Char) : Prop := cs ≠ [] ∧ ∀ c ∈ cs, isBlank c = false

/-- What may stand behind a word: nothing, or a text that starts with a blank. -/
def EndsWord (rest : List Char) : Prop := ∀ c, rest.head? = some c → isBlank c = true

theorem endsWord_nil : EndsWord [] := fun c hc => by simp at hc

theorem endsWord_cons {c : Char} (hc : isBlank c = true) (rest : List Char) :
    EndsWord (c :: rest) := fun d hd => by
  obtain rfl : c = d := by simpa using hd
  exact hc

/-- The text is made of the words in their order, with blanks between them and around them. -/
inductive Spaced : List Char → List (List Char) → Prop
  | blanks {gap : List Char} (h : Blanks gap) : Spaced gap []
  | word {gap word rest : List Char} {ws : List (List Char)} (hgap : Blanks gap)
      (hword : WordText word) (hend : EndsWord rest) (hrest : Spaced rest ws) :
      Spaced (gap ++ (word ++ rest)) (word :: ws)

/-- What stands between the gaps are words. -/
theorem Spaced.wordText {cs : List Char} {ws : List (List Char)} (h : Spaced cs ws) :
    ∀ word ∈ ws, WordText word := by
  induction h with
  | blanks => simp
  | word _ hword _ _ ih => exact List.forall_mem_cons.mpr ⟨hword, ih⟩

/-- A blank at the front only makes the first gap longer. -/
theorem Spaced.cons_blank {c : Char} {cs : List Char} {ws : List (List Char)}
    (hc : isBlank c = true) (h : Spaced cs ws) : Spaced (c :: cs) ws := by
  cases h with
  | blanks h => exact .blanks (List.forall_mem_cons.mpr ⟨hc, h⟩)
  | word hgap hword hend hrest =>
      exact .word (List.forall_mem_cons.mpr ⟨hc, hgap⟩) hword hend hrest

/-! ## reading words -/

/-- Blanks at the front hold no words. -/
theorem words_blanks {gap : List Char} (h : Blanks gap) (cs : List Char) :
    words (gap ++ cs) = words cs := by
  induction gap with
  | nil => rfl
  | cons c gap ih =>
      obtain ⟨hc, hgap⟩ := List.forall_mem_cons.mp h
      simpa [words, wordsFrom, hc] using ih hgap

/-- Reading goes on with the characters of a word. -/
theorem wordsFrom_append {cs : List Char} (h : ∀ c ∈ cs, isBlank c = false)
    (rest word : List Char) :
    wordsFrom (cs ++ rest) word = wordsFrom rest (cs.reverse ++ word) := by
  induction cs generalizing word with
  | nil => rfl
  | cons c cs ih =>
      obtain ⟨hc, hcs⟩ := List.forall_mem_cons.mp h
      simp [wordsFrom, hc, ih hcs]

theorem wordText_reverse {word : List Char} (hne : word ≠ [])
    (h : ∀ c ∈ word, isBlank c = false) : WordText word.reverse :=
  ⟨by simpa using hne, by simpa using h⟩

/-- A word that ends is the first of the words. -/
theorem words_word {word rest : List Char} (hword : WordText word) (hend : EndsWord rest) :
    words (word ++ rest) = word :: words rest := by
  obtain ⟨c, read, hread⟩ := List.exists_cons_of_ne_nil (List.reverse_ne_nil_iff.mpr hword.1)
  have hback : (c :: read).reverse = word := by rw [← hread, List.reverse_reverse]
  rw [words, wordsFrom_append hword.2, List.append_nil, hread]
  cases rest with
  | nil => simp [words, wordsFrom, hback]
  | cons d rest =>
      have hd : isBlank d = true := hend d rfl
      simp [words, wordsFrom, hd, hback]

/-- The words of a spaced text are those it was spaced from. -/
theorem Spaced.words_eq {cs : List Char} {ws : List (List Char)} (h : Spaced cs ws) :
    words cs = ws := by
  induction h with
  | @blanks gap h => simpa [words, wordsFrom] using words_blanks h []
  | word hgap hword hend hrest ih => rw [words_blanks hgap, words_word hword hend, ih]

/-- A text is made of the words that are read from it. -/
theorem spaced_wordsFrom {word : List Char} (h : ∀ c ∈ word, isBlank c = false) (cs : List Char) :
    Spaced (word.reverse ++ cs) (wordsFrom cs word) := by
  induction cs generalizing word with
  | nil =>
      cases word with
      | nil => exact .blanks blanks_nil
      | cons c word =>
          exact .word blanks_nil (wordText_reverse (by simp) h) endsWord_nil (.blanks blanks_nil)
  | cons c cs ih =>
      cases hc : isBlank c with
      | true =>
          have hrest : Spaced (c :: cs) (wordsFrom cs []) :=
            Spaced.cons_blank hc (ih (List.forall_mem_nil _))
          cases word with
          | nil => simpa [wordsFrom, hc] using hrest
          | cons d word =>
              have hword := wordText_reverse (List.cons_ne_nil d word) h
              have hspaced := Spaced.word blanks_nil hword (endsWord_cons hc cs) hrest
              simpa [wordsFrom, hc] using hspaced
      | false =>
          have hspaced := ih (List.forall_mem_cons.mpr ⟨hc, h⟩)
          simpa [wordsFrom, hc] using hspaced

/-- **Words.** The words of a text are those that it is made of. -/
theorem words_eq_iff {cs : List Char} {ws : List (List Char)} : words cs = ws ↔ Spaced cs ws := by
  constructor
  · rintro rfl
    exact spaced_wordsFrom (List.forall_mem_nil _) cs
  · exact Spaced.words_eq

end Runbook.Text

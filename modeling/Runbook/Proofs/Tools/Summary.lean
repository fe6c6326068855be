import Mathlib.Data.List.Basic
import Runbook.Proofs.Text.Search
import Runbook.Proofs.Text.Words
import Runbook.Tools.Texts

/-!
# Runbook.Proofs.Tools.Summary

What a summary keeps of a text. It has the first words of the text with one space between them, and
three points right behind the last one if words are left out. The points belong to the last word, so
a summary has no more words than it may have, and a summary of it is the summary itself
(`Tools.summarize_stable`).
-/

namespace Runbook.Tools

open Text

/-! ## joined words -/

theorem joinWords_cons_cons (word next : List Char) (ws : List (List Char)) :
    joinWords (word :: next :: ws) = word ++ ' ' :: joinWords (next :: ws) :=
  rfl

/-- Words are joined by single blanks. -/
theorem joinWords_eq (ws : List (List Char)) : joinWords ws = [' '].intercalate ws := by
  induction ws with
  | nil => rfl
  | cons word ws ih =>
      cases ws with
      | nil => simp [joinWords]
      | cons next ws => simp [joinWords_cons_cons, ih, List.intercalate_cons_cons]

/-- Joined words are a text that is made of these words. -/
theorem spaced_joinWords {ws : List (List Char)} (h : ∀ word ∈ ws, WordText word) :
    Spaced (joinWords ws) ws := by
  induction ws with
  | nil => exact .blanks blanks_nil
  | cons word ws ih =>
      obtain ⟨hword, hws⟩ := List.forall_mem_cons.mp h
      cases ws with
      | nil =>
          simpa [joinWords] using Spaced.word blanks_nil hword endsWord_nil (.blanks blanks_nil)
      | cons next ws =>
          have hspace : isBlank ' ' = true := by decide
          exact .word blanks_nil hword (endsWord_cons hspace _) ((ih hws).cons_blank hspace)

/-- What stands behind joined words stands behind the last one. -/
theorem joinWords_concat (ws : List (List Char)) (word tail : List Char) :
    joinWords (ws ++ [word]) ++ tail = joinWords (ws ++ [word ++ tail]) := by
  induction ws with
  | nil => rfl
  | cons first ws ih =>
      cases ws with
      | nil => simp [joinWords]
      | cons next ws =>
          simp only [List.cons_append, joinWords_cons_cons, List.append_assoc] at ih ⊢
          rw [ih]

/-! ## summaries -/

/-- A summary is made of the words of the text as far as they are kept, the last one with the three
points if there are any. -/
theorem exists_words_summary {limit : Nat} (hlimit : 0 < limit) (text : List Char) :
    ∃ ws, Spaced (summary limit text) ws ∧ ws.length = min (words text).length limit ∧
      summary limit text = joinWords ws := by
  have hkept : ∀ word ∈ (words text).take limit, WordText word := fun word hword =>
    (words_eq_iff.mp rfl).wordText word (List.mem_of_mem_take hword)
  have hlength : ((words text).take limit).length = min (words text).length limit := by
    rw [List.length_take, Nat.min_comm]
  simp only [summary]
  generalize (words text).take limit = kept at hkept hlength ⊢
  split
  · next hlong =>
      have hne : kept ≠ [] := List.ne_nil_of_length_pos (by omega)
      obtain ⟨front, last, rfl⟩ : ∃ front last, kept = front ++ [last] :=
        ⟨_, _, (List.dropLast_append_getLast hne).symm⟩
      rw [joinWords_concat]
      refine ⟨_, spaced_joinWords ?_, by simpa using hlength, rfl⟩
      intro word hword
      rcases List.mem_append.mp hword with hfront | hlast
      · exact hkept word (List.mem_append_left _ hfront)
      · obtain rfl := List.mem_singleton.mp hlast
        obtain ⟨hfirst, hplain⟩ := hkept last (by simp)
        have hpoints : ∀ c ∈ "...".toList, isBlank c = false := by decide
        refine ⟨by simp [hfirst], fun c hc => ?_⟩
        exact (List.mem_append.mp hc).elim (hplain c) (hpoints c)
  · rw [List.append_nil]
    exact ⟨kept, spaced_joinWords hkept, hlength, rfl⟩

/-- A text with no more words than are kept is summarised by its words. -/
theorem summary_of_le {limit : Nat} {text : List Char} (h : (words text).length ≤ limit) :
    summary limit text = joinWords (words text) := by
  simp [summary, List.take_of_length_le h, Nat.not_lt.mpr h]

/-- A summary is its own summary. -/
theorem summary_summary {limit : Nat} (hlimit : 0 < limit) (text : List Char) :
    summary limit (summary limit text) = summary limit text := by
  obtain ⟨ws, hspaced, hlength, hjoined⟩ := exists_words_summary hlimit text
  have hwords : words (summary limit text) = ws := hspaced.words_eq
  have hfew : (words (summary limit text)).length ≤ limit := by
    rw [hwords, hlength]
    exact Nat.min_le_right _ _
  rw [summary_of_le hfew, hwords, ← hjoined]

/-! ## the capability -/

/-- The tool answers with the summary of its text, for the limit it is given or the usual one. -/
theorem summarize_eq {args : Entries} {text : String} {count : Option Nat}
    (htext : requiredText args "text" = .ok text)
    (hcount : optionalCount args "max_tokens" = .ok count) :
    ∃ report, summarize args = .ok report ∧ report.success = true ∧
      report.output = .string (String.ofList (summary (max 20 (count.getD 512)) text.toList)) := by
  unfold summarize
  rw [htext, hcount, Nat.max_comm]
  exact ⟨_, rfl, rfl, rfl⟩

/-- A text that is given is found. -/
theorem requiredText_of_string {args : Entries} {name s : String}
    (h : Entries.get? name args = some (.string s)) : requiredText args name = .ok s := by
  rw [requiredText, present?, h]
  rfl

/-- **Summaries are bounded and stable.** The summary of a text consists of its first words, up to
the limit, with single spaces between them, and of three points behind them exactly if words are
left out. It has no more words than the limit, and summarising it again with the same limit,
whatever else is asked for, gives it again. -/
theorem summarize_stable {args : Entries} {text : String} {count : Option Nat}
    (htext : requiredText args "text" = .ok text)
    (hcount : optionalCount args "max_tokens" = .ok count) :
    let limit := max 20 (count.getD 512)
    ∃ report ws short, summarize args = .ok report ∧ report.success = true ∧
      report.output = .string short ∧ Spaced text.toList ws ∧
      short.toList = [' '].intercalate (ws.take limit) ++
        (if limit < ws.length then ['.', '.', '.'] else []) ∧
      (words short.toList).length = min ws.length limit ∧
      ∀ again, Entries.get? "text" again = some report.output →
        optionalCount again "max_tokens" = .ok count →
        ∃ report', summarize again = .ok report' ∧ report'.output = report.output := by
  intro limit
  obtain ⟨report, hreport, hsuccess, houtput⟩ := summarize_eq htext hcount
  have hlimit : 0 < limit := by omega
  refine ⟨report, words text.toList, _, hreport, hsuccess, houtput, words_eq_iff.mp rfl, ?_, ?_, ?_⟩
  · rw [String.toList_ofList, summary, joinWords_eq]
    rfl
  · obtain ⟨ws, hspaced, hlength, -⟩ := exists_words_summary hlimit text.toList
    rw [String.toList_ofList, hspaced.words_eq, hlength]
  · intro again hagain hcount'
    rw [houtput] at hagain
    obtain ⟨report', hreport', -, houtput'⟩ :=
      summarize_eq (requiredText_of_string hagain) hcount'
    refine ⟨report', hreport', ?_⟩
    rw [houtput', houtput, String.toList_ofList, summary_summary hlimit]

/-- Twenty-one words between blanks of several kinds, in a summary that keeps twenty. -/
theorem summarize_stable_blanks :
    let text : String := "\ta b  c d e f g h i j\nk l m n o p q r s\u3000t u "
    let args : Entries := [("text", .string text), ("max_tokens", .string " +7 ")]
    let short : String := "a b c d e f g h i j k l m n o p q r s t..."
    requiredText args "text" = .ok text ∧
      optionalCount args "max_tokens" = .ok (some 7) ∧
      ∃ report report', summarize args = .ok report ∧ report.output = .string short ∧
        summarize [("max_tokens", .ofNat 7), ("text", .string short)] = .ok report' ∧
        report'.output = .string short := by
  intro text args short
  have htext : requiredText args "text" = .ok text := rfl
  have hcount : optionalCount args "max_tokens" = .ok (some 7) := rfl
  have hshort : summary 20 text.toList = short.toList := by decide +kernel
  have houtput {report : Report} (h : summarize args = .ok report) :
      report.output = .string short := by
    obtain ⟨report', hreport', -, houtput'⟩ := summarize_eq htext hcount
    obtain rfl := Except.ok.inj (hreport'.symm.trans h)
    rw [houtput', ← String.ofList_toList (s := short), ← hshort]
    rfl
  obtain ⟨report, -, -, hreport, -, -, -, -, -, hagain⟩ := summarize_stable htext hcount
  obtain ⟨report', hreport', houtput'⟩ :=
    hagain [("max_tokens", .ofNat 7), ("text", .string short)] (by rw [houtput hreport]; rfl) rfl
  exact ⟨htext, hcount, report, report', hreport, houtput hreport, hreport',
    houtput'.trans (houtput hreport)⟩

end Runbook.Tools

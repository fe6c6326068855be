import Mathlib.Data.List.Basic
import Mathlib.Data.List.TakeWhile
import Runbook.Proofs.Text.Blank
import Runbook.Redaction

/-!
# Runbook.Proofs.Redaction.Pattern

How far a pattern looks, and what it takes. A pattern that stops at a mark never takes it and does
not see what stands behind it (`Pattern.StopsAt`); a guarded one may take the mark, but then takes
all before it too (`Pattern.Guarded`). Every announcement of a secret has one of a few letters in
the name that it starts with (`Pattern.Announces`), so a text without these letters is not touched.
The four rules have these properties in common (`Rule.Sound`).
-/

namespace Runbook.Redaction

/-! ## characters -/

/-- The name characters are no blanks. -/
theorem isNameChar_of_isBlank {c : Char} (h : Text.isBlank c = true) : isNameChar c = false := by
  have hall : ∀ n ∈ Text.blankCodes, isNameChar (Char.ofNat n) = false := by decide
  exact Text.of_isBlank (P := fun c => isNameChar c = false) hall h

/-- A blank has one form only. -/
theorem foldCase_of_isBlank {c : Char} (h : Text.isBlank c = true) : foldCase c = c := by
  have hall : ∀ n ∈ Text.blankCodes, foldCase (Char.ofNat n) = Char.ofNat n := by decide
  exact Text.of_isBlank (P := fun c => foldCase c = c) hall h

/-- A character that folds to a letter or a digit is a name character. -/
theorem isNameChar_of_foldCase {c : Char} (h : (foldCase c).isAlphanum = true) :
    isNameChar c = true := by
  simp [isNameChar, h]

/-- The letters of which each announcement has one in its name. -/
def telltales : List Char := ['z', 'b', 'd', 'k', 'c', 'p']

/-- A character that is no part of an escape in a string: a blank, or one of the marks around a
secret. -/
def isSeam (c : Char) : Bool := Text.isBlank c || c = '=' || c = ':' || c = ',' || c = ';'

namespace Pattern

variable {pattern first second : Pattern} {mark : Char} {p : Char → Bool}

/-! ## taking characters of a kind -/

/-- A run that the mark ends is the same with the mark and more behind the text. -/
theorem takeWhile_append_stop (hmark : p mark = false) (cs rest : List Char) :
    (cs ++ mark :: rest).takeWhile p = cs.takeWhile p := by
  induction cs with
  | nil => simp [hmark]
  | cons c cs ih =>
      cases hc : p c <;> simp [hc, ih]

/-- What is left behind it then goes on with the mark. -/
theorem dropWhile_append_stop (hmark : p mark = false) (cs rest : List Char) :
    (cs ++ mark :: rest).dropWhile p = cs.dropWhile p ++ mark :: rest := by
  induction cs with
  | nil => simp [hmark]
  | cons c cs ih =>
      cases hc : p c <;> simp [hc, ih]

/-- A run that ends within the text is the same with more behind the text. -/
theorem takeWhile_append_of_exists {cs : List Char} (h : ∃ c ∈ cs, p c = false)
    (rest : List Char) : (cs ++ rest).takeWhile p = cs.takeWhile p := by
  induction cs with
  | nil => simp at h
  | cons c cs ih =>
      cases hc : p c with
      | false => simp [hc]
      | true => simpa [hc] using ih (by simpa [hc] using h)

/-- What is left of the text then has the rest behind it. -/
theorem dropWhile_append_of_exists {cs : List Char} (h : ∃ c ∈ cs, p c = false)
    (rest : List Char) : (cs ++ rest).dropWhile p = cs.dropWhile p ++ rest := by
  induction cs with
  | nil => simp at h
  | cons c cs ih =>
      cases hc : p c with
      | false => simp [hc]
      | true => simpa [hc] using ih (by simpa [hc] using h)

/-! ## stopping at a mark -/

/-- The pattern never takes the mark, and does not see what stands behind it. -/
def StopsAt (mark : Char) (pattern : Pattern) : Prop :=
  ∀ cs, (∀ rest, pattern (cs ++ mark :: rest) = none) ∨
    ∃ part left, cs = part ++ left ∧
      ∀ rest, pattern (cs ++ mark :: rest) = some (part, left ++ mark :: rest)

/-- A run stops at a mark that it does not take. -/
theorem stopsAt_run (hmark : p mark = false) : StopsAt mark (run p) := by
  intro cs
  refine .inr ⟨cs.takeWhile p, cs.dropWhile p, List.takeWhile_append_dropWhile.symm, ?_⟩
  intro rest
  rw [run, takeWhile_append_stop hmark, dropWhile_append_stop hmark]

/-- So does a run of one character or more. -/
theorem stopsAt_someOf (hmark : p mark = false) : StopsAt mark (someOf p) := by
  intro cs
  cases hempty : (cs.takeWhile p).isEmpty with
  | true =>
      refine .inl fun rest => ?_
      rw [someOf, takeWhile_append_stop hmark, if_pos hempty]
  | false =>
      refine .inr ⟨cs.takeWhile p, cs.dropWhile p, List.takeWhile_append_dropWhile.symm, ?_⟩
      intro rest
      rw [someOf, takeWhile_append_stop hmark, dropWhile_append_stop hmark,
        if_neg (by simp [hempty])]

/-- So does a single character. -/
theorem stopsAt_one (hmark : p mark = false) : StopsAt mark (one p) := by
  intro cs
  cases cs with
  | nil => exact .inl fun rest => by simp [one, hmark]
  | cons c cs =>
      cases hc : p c with
      | false => exact .inl fun rest => by simp [one, hc]
      | true => exact .inr ⟨[c], cs, rfl, fun rest => by simp [one, hc]⟩

/-- A word stops at a mark that it does not have in any case. -/
theorem stopsAt_word {w : List Char} (hmark : foldCase mark ∉ w) : StopsAt mark (word w) := by
  intro cs
  by_cases hlong : w.length ≤ cs.length
  · have htake : ∀ rest, (cs ++ mark :: rest).take w.length = cs.take w.length := fun rest =>
      List.take_append_of_le_length hlong
    by_cases hword : (cs.take w.length).map foldCase = w
    · refine .inr ⟨cs.take w.length, cs.drop w.length, (List.take_append_drop _ _).symm, ?_⟩
      intro rest
      rw [word, htake, if_pos hword, List.drop_append_of_le_length hlong]
    · exact .inl fun rest => by rw [word, htake, if_neg hword]
  · -- the mark would be among the characters of the word
    refine .inl fun rest => if_neg fun hword => hmark ?_
    have hmem : mark ∈ (cs ++ mark :: rest).take w.length := by
      rw [List.take_append, List.mem_append]
      right
      obtain ⟨n, hn⟩ : ∃ n, w.length - cs.length = n + 1 := ⟨w.length - cs.length - 1, by omega⟩
      simp [hn]
    rw [← hword]
    exact List.mem_map_of_mem hmem

/-- A name stops at a mark that is no name character. -/
theorem stopsAt_nameEndingIn {words : List (List Char)} (hmark : isNameChar mark = false) :
    StopsAt mark (nameEndingIn words) := by
  intro cs
  cases hany : words.any fun w => w.isSuffixOf ((cs.takeWhile isNameChar).map foldCase) with
  | false =>
      refine .inl fun rest => ?_
      simp only [nameEndingIn, takeWhile_append_stop hmark, hany]
      rfl
  | true =>
      refine .inr ⟨cs.takeWhile isNameChar, cs.dropWhile isNameChar,
        List.takeWhile_append_dropWhile.symm, ?_⟩
      intro rest
      simp only [nameEndingIn, takeWhile_append_stop hmark, dropWhile_append_stop hmark, hany]
      rfl

/-- Two patterns in a row stop at a mark if both do. -/
theorem stopsAt_andThen (hfirst : first.StopsAt mark) (hsecond : second.StopsAt mark) :
    (first.andThen second).StopsAt mark := by
  intro cs
  rcases hfirst cs with hnone | ⟨part, left, rfl, hfound⟩
  · exact .inl fun rest => by simp [andThen, hnone]
  · rcases hsecond left with hnone | ⟨part', left', rfl, hfound'⟩
    · exact .inl fun rest => by
        simp only [andThen, hfound, Option.bind_some, hnone, Option.map_none]
    · refine .inr ⟨part ++ part', left', by simp, fun rest => ?_⟩
      simp only [andThen, hfound, Option.bind_some, hfound', Option.map_some]

/-- A choice stops at a mark if all its patterns do. -/
theorem stopsAt_firstOf {patterns : List Pattern} (h : ∀ pattern ∈ patterns, StopsAt mark pattern) :
    StopsAt mark (firstOf patterns) := by
  intro cs
  induction patterns with
  | nil => exact .inl fun rest => rfl
  | cons pattern patterns ih =>
      rcases h pattern List.mem_cons_self cs with hnone | ⟨part, left, hcs, hfound⟩
      · simp only [firstOf, List.findSome?_cons, hnone]
        exact ih fun q hq => h q (List.mem_cons_of_mem _ hq)
      · exact .inr ⟨part, left, hcs, fun rest => by simp [firstOf, hfound]⟩

/-! ## guarding what stands before a mark -/

/-- The pattern stops before the mark, or takes all before it and the mark too; it does not see what
stands behind the mark unless it takes it. -/
def Guarded (mark : Char) (pattern : Pattern) : Prop :=
  ∀ cs, (∀ rest, pattern (cs ++ mark :: rest) = none) ∨
    (∃ part left, cs = part ++ left ∧
      ∀ rest, pattern (cs ++ mark :: rest) = some (part, left ++ mark :: rest)) ∨
    ∀ rest, ∃ part left, pattern (cs ++ mark :: rest) = some (cs ++ mark :: part, left)

/-- A pattern that never takes the mark is guarded against it. -/
theorem StopsAt.guarded (h : pattern.StopsAt mark) : pattern.Guarded mark := fun cs =>
  (h cs).imp_right .inl

/-- A run that takes the mark takes all before it too. -/
theorem guarded_someOf (hmark : p mark = true) : Guarded mark (someOf p) := by
  intro cs
  by_cases hstop : ∃ c ∈ cs, p c = false
  · cases hempty : (cs.takeWhile p).isEmpty with
    | true => exact .inl fun rest => by rw [someOf, takeWhile_append_of_exists hstop, if_pos hempty]
    | false =>
        refine .inr (.inl ⟨cs.takeWhile p, cs.dropWhile p,
          List.takeWhile_append_dropWhile.symm, fun rest => ?_⟩)
        rw [someOf, takeWhile_append_of_exists hstop, dropWhile_append_of_exists hstop,
          if_neg (by simp [hempty])]
  · have hall : ∀ c ∈ cs, p c = true := by simpa using hstop
    refine .inr (.inr fun rest => ⟨rest.takeWhile p, rest.dropWhile p, ?_⟩)
    rw [someOf, List.takeWhile_append_of_pos hall, List.dropWhile_append_of_pos hall]
    simp [hmark]

/-- Behind a pattern that stops at the mark a guarded one stays guarded. -/
theorem StopsAt.guarded_andThen (hfirst : first.StopsAt mark) (hsecond : second.Guarded mark) :
    (first.andThen second).Guarded mark := by
  intro cs
  rcases hfirst cs with hnone | ⟨part, left, rfl, hfound⟩
  · exact .inl fun rest => by simp [andThen, hnone]
  · simp only [andThen, hfound, Option.bind_some]
    rcases hsecond left with hnone | ⟨part', left', rfl, hfound'⟩ | htaken
    · exact .inl fun rest => by rw [hnone, Option.map_none]
    · refine .inr (.inl ⟨part ++ part', left', by simp, fun rest => ?_⟩)
      rw [hfound', Option.map_some]
    · refine .inr (.inr fun rest => ?_)
      obtain ⟨part', left', hfound'⟩ := htaken rest
      exact ⟨part', left', by simp [hfound']⟩

/-- A guarded pattern may be left out. -/
theorem Guarded.optionally (h : pattern.Guarded mark) : pattern.optionally.Guarded mark := by
  intro cs
  rcases h cs with hnone | ⟨part, left, hcs, hfound⟩ | htaken
  · exact .inr (.inl ⟨[], cs, rfl, fun rest => by simp [Pattern.optionally, hnone]⟩)
  · exact .inr (.inl ⟨part, left, hcs, fun rest => by simp [Pattern.optionally, hfound]⟩)
  · refine .inr (.inr fun rest => ?_)
    obtain ⟨part, left, hfound⟩ := htaken rest
    exact ⟨part, left, by simp [Pattern.optionally, hfound]⟩

/-- Behind a guarded pattern there may be anything else. -/
theorem Guarded.andThen_optionally (hfirst : first.Guarded mark) (hsecond : second.Guarded mark) :
    (first.andThen second.optionally).Guarded mark := by
  intro cs
  rcases hfirst cs with hnone | ⟨part, left, rfl, hfound⟩ | htaken
  · exact .inl fun rest => by simp [andThen, hnone]
  · simp only [andThen, hfound, Option.bind_some]
    rcases hsecond.optionally left with hnone | ⟨part', left', rfl, hfound'⟩ | htaken
    · exact .inl fun rest => by rw [hnone, Option.map_none]
    · refine .inr (.inl ⟨part ++ part', left', by simp, fun rest => ?_⟩)
      rw [hfound', Option.map_some]
    · refine .inr (.inr fun rest => ?_)
      obtain ⟨part', left', hfound'⟩ := htaken rest
      exact ⟨part', left', by simp [hfound']⟩
  · refine .inr (.inr fun rest => ?_)
    obtain ⟨part, left, hfound⟩ := htaken rest
    obtain ⟨part', left', hfound'⟩ :
        ∃ part' left', second.optionally left = some (part', left') := by
      unfold Pattern.optionally
      cases second left with
      | none => exact ⟨_, _, rfl⟩
      | some found => exact ⟨_, _, rfl⟩
    exact ⟨part ++ part', left', by simp [andThen, hfound, hfound']⟩

/-! ## parts -/

/-- A pattern that may be left out still cuts the text in two. -/
theorem splits_optionally (h : pattern.Splits) : pattern.optionally.Splits := by
  intro cs part rest hfound
  unfold optionally at hfound
  cases hpattern : pattern cs with
  | none =>
      simp only [hpattern, Option.none_or, Option.some.injEq, Prod.mk.injEq] at hfound
      obtain ⟨rfl, rfl⟩ := hfound
      rfl
  | some found =>
      simp only [hpattern, Option.some_or, Option.some.injEq] at hfound
      exact h cs part rest (hpattern.trans (congrArg some hfound))

/-- So does the first one of some patterns that fits. -/
theorem splits_firstOf {patterns : List Pattern} (h : ∀ pattern ∈ patterns, Splits pattern) :
    Splits (firstOf patterns) := by
  intro cs part rest hfound
  obtain ⟨pattern, hmem, hpattern⟩ := List.exists_of_findSome?_eq_some hfound
  exact h pattern hmem cs part rest hpattern

/-- The part that the pattern takes starts with a name, in which there is one of the telltales. -/
def Announces (pattern : Pattern) : Prop :=
  ∀ cs part rest, pattern cs = some (part, rest) →
    ∃ c ∈ part.takeWhile isNameChar, foldCase c ∈ telltales

/-- A word with a telltale in its first name announces a secret. -/
theorem announces_word (name rest : List Char) (hname : ∀ c ∈ name, c.isAlphanum = true)
    (htell : name.any telltales.contains = true) : Announces (word (name ++ rest)) := by
  intro cs part left hfound
  simp only [word, Option.ite_none_right_eq_some, Option.some.injEq, Prod.mk.injEq] at hfound
  obtain ⟨hword, rfl, -⟩ := hfound
  obtain ⟨front, back, hpart, hfront, -⟩ := List.map_eq_append_iff.mp hword
  have hall : ∀ c ∈ front, isNameChar c = true := by
    intro c hc
    apply isNameChar_of_foldCase
    apply hname
    rw [← hfront]
    exact List.mem_map_of_mem hc
  obtain ⟨d, hd, hdtell⟩ := List.any_eq_true.mp htell
  rw [← hfront, List.mem_map] at hd
  obtain ⟨c, hc, rfl⟩ := hd
  refine ⟨c, ?_, List.contains_iff_mem.mp hdtell⟩
  rw [hpart, List.takeWhile_append_of_pos hall]
  exact List.mem_append_left _ hc

/-- So does a name that ends in a word with a telltale. -/
theorem announces_nameEndingIn {words : List (List Char)}
    (htell : ∀ w ∈ words, w.any telltales.contains = true) : Announces (nameEndingIn words) := by
  intro cs part rest hfound
  simp only [nameEndingIn, Option.ite_none_right_eq_some, Option.some.injEq, Prod.mk.injEq,
    List.any_eq_true, List.isSuffixOf_iff_suffix] at hfound
  obtain ⟨⟨w, hw, hsuffix⟩, rfl, -⟩ := hfound
  obtain ⟨d, hd, hdtell⟩ := List.any_eq_true.mp (htell w hw)
  obtain ⟨c, hc, rfl⟩ := List.mem_map.mp (hsuffix.subset hd)
  refine ⟨c, ?_, List.contains_iff_mem.mp hdtell⟩
  rwa [List.takeWhile_eq_self_iff.mpr fun d hd => List.mem_takeWhile_imp hd]

/-- What stands behind an announcement does not count. -/
theorem Announces.andThen (h : first.Announces) : (first.andThen second).Announces := by
  intro cs part rest hfound
  simp only [Pattern.andThen, Option.bind_eq_some_iff, Option.map_eq_some_iff] at hfound
  obtain ⟨⟨part', left⟩, hfirst, ⟨part'', left'⟩, -, hpair⟩ := hfound
  obtain ⟨rfl, -⟩ := Prod.mk.inj hpair
  obtain ⟨c, hc, htell⟩ := h cs part' left hfirst
  refine ⟨c, ?_, htell⟩
  rw [List.takeWhile_append]
  split
  · exact List.mem_append_left _ ((List.takeWhile_prefix _).subset hc)
  · exact hc

/-- A choice between announcements is one. -/
theorem announces_firstOf {patterns : List Pattern} (h : ∀ pattern ∈ patterns, Announces pattern) :
    Announces (firstOf patterns) := by
  intro cs part rest hfound
  obtain ⟨pattern, hmem, hpattern⟩ := List.exists_of_findSome?_eq_some hfound
  exact h pattern hmem cs part rest hpattern

/-- The part that the pattern takes ends with a seam. -/
def EndsInSeam (pattern : Pattern) : Prop :=
  ∀ cs part rest, pattern cs = some (part, rest) → ∃ c, part.getLast? = some c ∧ isSeam c = true

/-- What stands before a part that ends in a seam does not count. -/
theorem EndsInSeam.andThen (h : second.EndsInSeam) : (first.andThen second).EndsInSeam := by
  intro cs part rest hfound
  simp only [Pattern.andThen, Option.bind_eq_some_iff, Option.map_eq_some_iff] at hfound
  obtain ⟨⟨part', left⟩, -, ⟨part'', left'⟩, hsecond, hpair⟩ := hfound
  obtain ⟨rfl, -⟩ := Prod.mk.inj hpair
  obtain ⟨c, hlast, hc⟩ := h left part'' left' hsecond
  exact ⟨c, by simp [List.getLast?_append, hlast], hc⟩

/-- A run of seams ends in one. -/
theorem endsInSeam_someOf (hp : ∀ c, p c = true → isSeam c = true) : (someOf p).EndsInSeam := by
  intro cs part rest hfound
  simp only [someOf, Option.ite_none_left_eq_some, Option.some.injEq, Prod.mk.injEq] at hfound
  obtain ⟨hsome, rfl, -⟩ := hfound
  obtain ⟨c, hlast⟩ : ∃ c, (cs.takeWhile p).getLast? = some c := by
    cases hlast : (cs.takeWhile p).getLast? with
    | none => simp_all
    | some c => exact ⟨c, rfl⟩
  exact ⟨c, hlast, hp c (List.mem_takeWhile_imp (List.mem_of_getLast? hlast))⟩

/-- A sign with characters of a kind behind it ends with a seam if both are seams. -/
theorem endsInSeam_one {q : Char → Bool} (hq : ∀ c, q c = true → isSeam c = true)
    (hp : ∀ c, p c = true → isSeam c = true) : ((one q).andThen (run p)).EndsInSeam := by
  intro cs part rest hfound
  cases cs with
  | nil => simp [Pattern.andThen, one] at hfound
  | cons c cs =>
      cases hc : q c with
      | false => simp [Pattern.andThen, one, hc] at hfound
      | true =>
          simp only [Pattern.andThen, one, hc, if_true, Option.bind_some, run, Option.map_some,
            Option.some.injEq, Prod.mk.injEq] at hfound
          obtain ⟨rfl, -⟩ := hfound
          cases hlast : (cs.takeWhile p).getLast? with
          | none => exact ⟨c, by simp [List.getLast?_cons, hlast], hq c hc⟩
          | some d =>
              refine ⟨d, by simp [List.getLast?_cons, hlast], hp d ?_⟩
              exact List.mem_takeWhile_imp (List.mem_of_getLast? hlast)

/-- A seam or the end follows the part that the pattern takes. -/
def EndsAtSeam (pattern : Pattern) : Prop :=
  ∀ cs part rest, pattern cs = some (part, rest) → ∀ c, rest.head? = some c → isSeam c = true

/-- A run of all that is no seam ends at one. -/
theorem endsAtSeam_someOf (hp : ∀ c, p c = false → isSeam c = true) : (someOf p).EndsAtSeam := by
  intro cs part rest hfound c hhead
  simp only [someOf, Option.ite_none_left_eq_some, Option.some.injEq, Prod.mk.injEq] at hfound
  obtain ⟨-, -, rfl⟩ := hfound
  exact hp c (by simpa [hhead] using List.head?_dropWhile_not p cs)

/-- With or without its second part the text ends at a seam, if both parts do. -/
theorem EndsAtSeam.andThen_optionally (hfirst : first.EndsAtSeam) (hsecond : second.EndsAtSeam) :
    (first.andThen second.optionally).EndsAtSeam := by
  intro cs part rest hfound
  simp only [Pattern.andThen, Option.bind_eq_some_iff, Option.map_eq_some_iff] at hfound
  obtain ⟨⟨part', left⟩, hfirst', ⟨part'', left'⟩, hsecond', hpair⟩ := hfound
  obtain ⟨-, rfl⟩ := Prod.mk.inj hpair
  unfold optionally at hsecond'
  cases hfound : second left with
  | none =>
      simp only [hfound, Option.none_or, Option.some.injEq, Prod.mk.injEq] at hsecond'
      obtain ⟨-, rfl⟩ := hsecond'
      exact hfirst cs part' left hfirst'
  | some found =>
      simp only [hfound, Option.some_or, Option.some.injEq] at hsecond'
      exact hsecond left part'' left' (hfound.trans (congrArg some hsecond'))

/-- What stands before a part that ends at a seam does not count. -/
theorem EndsAtSeam.andThen (h : second.EndsAtSeam) : (first.andThen second).EndsAtSeam := by
  intro cs part rest hfound
  simp only [Pattern.andThen, Option.bind_eq_some_iff, Option.map_eq_some_iff] at hfound
  obtain ⟨⟨part', left⟩, -, ⟨part'', left'⟩, hsecond, hpair⟩ := hfound
  obtain ⟨-, rfl⟩ := Prod.mk.inj hpair
  exact h left part'' left' hsecond

/-- The part that the pattern takes has no escapes in it. -/
def SkipsEscapes (pattern : Pattern) : Prop :=
  ∀ cs part rest, pattern cs = some (part, rest) → '\\' ∉ part

end Pattern

/-! ## the rules -/

/-- What the rules have in common: where they look for a secret, and that a redacted string is cut
at seams only. -/
structure Rule.Sound (rule : Rule) : Prop where
  splits_announcement : rule.announcement.Splits
  splits_secret : rule.secret.Splits
  announces : rule.announcement.Announces
  stopsAtQuote : rule.announcement.StopsAt '"'
  guardsQuote : rule.secret.Guarded '"'
  endsInSeam : rule.announcement.EndsInSeam
  endsWhole : rule.secret.EndsAtSeam ∨ rule.secret.SkipsEscapes

section

open Pattern

theorem isSeam_of_isBlank {c : Char} (h : Text.isBlank c = true) : isSeam c = true := by
  simp [isSeam, h]

/-- What ends a token is a seam. -/
theorem isSeam_of_isVisible {c : Char} (h : isVisible c = false) : isSeam c = true :=
  isSeam_of_isBlank (by simpa [isVisible] using h)

/-- What ends an assigned secret is a seam. -/
theorem isSeam_of_isSecretChar {c : Char} (h : isSecretChar c = false) : isSeam c = true := by
  simp only [isSecretChar, Bool.not_eq_false', Bool.or_eq_true, decide_eq_true_eq] at h
  rcases h with (h | rfl) | rfl
  · exact isSeam_of_isBlank h
  · decide
  · decide

/-- Blanks are cut off the front of a text. -/
theorem splits_blanks : blanks.Splits := splits_someOf _

/-- So is the sign of an assignment with the blanks around it. -/
theorem splits_assignment : assignment.Splits :=
  splits_andThen (splits_run _) (splits_andThen (splits_one _) (splits_run _))

/-- Blanks stop at a quote. -/
theorem stopsAt_blanks : blanks.StopsAt '"' := stopsAt_someOf (by decide)

/-- So does the sign of an assignment. -/
theorem stopsAt_assignment : assignment.StopsAt '"' :=
  stopsAt_andThen (stopsAt_run (by decide))
    (stopsAt_andThen (stopsAt_one (by decide)) (stopsAt_run (by decide)))

/-- Blanks end in a seam. -/
theorem endsInSeam_blanks : blanks.EndsInSeam := endsInSeam_someOf fun _ => isSeam_of_isBlank

/-- So does the sign of an assignment. -/
theorem endsInSeam_assignment : assignment.EndsInSeam := by
  refine EndsInSeam.andThen (endsInSeam_one ?_ fun _ => isSeam_of_isBlank)
  intro c hc
  simp only [Bool.or_eq_true, decide_eq_true_eq] at hc
  rcases hc with rfl | rfl <;> decide

/-- An assigned secret may take a quote, but then takes all before it too. -/
theorem guarded_assigned : assigned.Guarded '"' := guarded_someOf (by decide)

/-- An assigned secret ends at a seam. -/
theorem endsAtSeam_assigned : assigned.EndsAtSeam :=
  endsAtSeam_someOf fun _ => isSeam_of_isSecretChar

/-- The rule for headers has what the rules have in common. -/
theorem sound_authorizationRule : authorizationRule.Sound where
  splits_announcement := splits_andThen (splits_word _) splits_blanks
  splits_secret := splits_andThen (splits_someOf _)
    (splits_optionally (splits_andThen splits_blanks (splits_someOf _)))
  announces := (announces_word "authorization".toList [':'] (by decide) (by decide)).andThen
  stopsAtQuote := stopsAt_andThen (stopsAt_word (by decide)) stopsAt_blanks
  guardsQuote := (guarded_someOf (by decide)).andThen_optionally
    (stopsAt_blanks.guarded_andThen guarded_assigned)
  endsInSeam := endsInSeam_blanks.andThen
  endsWhole := .inl ((endsAtSeam_someOf fun _ => isSeam_of_isVisible).andThen_optionally
    endsAtSeam_assigned.andThen)

/-- A token has no escapes in it, since the backslash is no character of tokens. -/
theorem skipsEscapes_token : bearerRule.secret.SkipsEscapes := by
  intro cs part rest hfound
  simp only [bearerRule, Pattern.andThen, someOf, run, Option.bind_eq_some_iff,
    Option.ite_none_left_eq_some, Option.map_some, Option.some.injEq] at hfound
  obtain ⟨found, ⟨-, rfl⟩, hpair⟩ := hfound
  obtain ⟨rfl, -⟩ := Prod.mk.inj hpair
  intro hmem
  rcases List.mem_append.mp hmem with htoken | hequals
  · exact absurd (List.mem_takeWhile_imp htoken) (by decide)
  · exact absurd (List.mem_takeWhile_imp hequals) (by decide)

/-- So has the rule for tokens. -/
theorem sound_bearerRule : bearerRule.Sound where
  splits_announcement := splits_andThen (splits_word _) splits_blanks
  splits_secret := splits_andThen (splits_someOf _) (splits_run _)
  announces := (announces_word "bearer".toList [] (by decide) (by decide)).andThen
  stopsAtQuote := stopsAt_andThen (stopsAt_word (by decide)) stopsAt_blanks
  guardsQuote := (stopsAt_andThen (stopsAt_someOf (by decide)) (stopsAt_run (by decide))).guarded
  endsInSeam := endsInSeam_blanks.andThen
  endsWhole := .inr skipsEscapes_token

/-- So has the rule for names of secrets. -/
theorem sound_namedSecretRule : namedSecretRule.Sound where
  splits_announcement := splits_andThen (splits_nameEndingIn _) splits_assignment
  splits_secret := splits_someOf _
  announces := (announces_nameEndingIn (by decide)).andThen
  stopsAtQuote := stopsAt_andThen (stopsAt_nameEndingIn (by decide)) stopsAt_assignment
  guardsQuote := guarded_assigned
  endsInSeam := endsInSeam_assignment.andThen
  endsWhole := .inl endsAtSeam_assigned

/-- So has the rule for addresses of databases. -/
theorem sound_databaseRule : databaseRule.Sound where
  splits_announcement := splits_andThen (splits_firstOf (by simp [splits_word])) splits_assignment
  splits_secret := splits_someOf _
  announces := by
    refine (announces_firstOf ?_).andThen
    simp only [List.forall_mem_cons, List.not_mem_nil, false_imp_iff, implies_true, and_true]
    exact ⟨announces_word "database".toList "_url".toList (by decide) (by decide),
      announces_word "redis".toList "_url".toList (by decide) (by decide),
      announces_word "mongodb".toList "_uri".toList (by decide) (by decide)⟩
  stopsAtQuote := by
    refine stopsAt_andThen (stopsAt_firstOf ?_) stopsAt_assignment
    simp only [List.forall_mem_cons, List.not_mem_nil, false_imp_iff, implies_true, and_true]
    exact ⟨stopsAt_word (by decide), stopsAt_word (by decide), stopsAt_word (by decide)⟩
  guardsQuote := guarded_assigned
  endsInSeam := endsInSeam_assignment.andThen
  endsWhole := .inl endsAtSeam_assigned

/-- What holds of each of the four rules holds of all. -/
theorem forall_mem_rules {P : Rule → Prop} (hauthorization : P authorizationRule)
    (hbearer : P bearerRule) (hnamedSecret : P namedSecretRule) (hdatabase : P databaseRule) :
    ∀ rule ∈ rules, P rule := by
  simp only [rules, List.forall_mem_cons, List.not_mem_nil, false_imp_iff, implies_true, and_true]
  exact ⟨hauthorization, hbearer, hnamedSecret, hdatabase⟩

/-- Every rule is sound. -/
theorem sound_of_mem_rules : ∀ rule ∈ rules, rule.Sound :=
  forall_mem_rules sound_authorizationRule sound_bearerRule sound_namedSecretRule
    sound_databaseRule

end

end Runbook.Redaction

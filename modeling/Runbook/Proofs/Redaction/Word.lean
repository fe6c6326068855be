import Runbook.Proofs.Redaction.Scan

/-!
# Runbook.Proofs.Redaction.Word

What a rule does to a word that stands behind a text and a blank. An announcement that goes on over
the blank ends right in front of the word (`Pattern.Reaches`). A secret that comes to the word takes
all of it, except for the token of a bearer (`Pattern.CoversGap`). So the word is either left alone
or replaced, and which of the two depends on the text in front of it only (`passes_or_swallows`,
`passes_or_takes`).
-/

namespace Runbook.Redaction

/-! ## texts behind a blank -/

/-- Texts that start with a name. -/
def AtName (tail : List Char) : Prop := ∃ c rest, tail = c :: rest ∧ isNameChar c = true

/-- Texts with a blank in front of a name. -/
def AtGap (tail : List Char) : Prop := ∃ rest, AtName rest ∧ tail = ' ' :: rest

/-- The shortest text that starts with a name. -/
theorem atName_letter : AtName ['x'] := ⟨'x', [], rfl, by decide⟩

/-- The shortest text with a blank in front of a name. -/
theorem atGap_letter : AtGap [' ', 'x'] := ⟨['x'], atName_letter, rfl⟩

/-- A word as a rule may take it for a secret: it starts with a name, and no blank, comma or
semicolon is in it. -/
structure IsWord (word : List Char) : Prop where
  atName : AtName word
  secret : ∀ c ∈ word, isSecretChar c = true

/-- What may follow a word: a blank, or nothing. -/
def Gapped (tail : List Char) : Prop := ∀ c, tail.head? = some c → Text.isBlank c = true

/-- A blank may follow a word. -/
theorem gapped_space (rest : List Char) : Gapped (' ' :: rest) := fun c hc => by
  obtain rfl : ' ' = c := by simpa using hc
  decide

/-- A seam is no name character. -/
theorem isNameChar_of_isSeam {c : Char} (h : isSeam c = true) : isNameChar c = false := by
  simp only [isSeam, Bool.or_eq_true, decide_eq_true_eq] at h
  rcases h with (((h | rfl) | rfl) | rfl) | rfl
  · exact isNameChar_of_isBlank h
  all_goals decide

/-- A text that does not start with a name announces nothing at its front. -/
theorem calm_of_head? {tail : List Char} (h : ∀ c, tail.head? = some c → isSeam c = true) :
    Calm tail := by
  cases tail with
  | nil => exact calm_nil
  | cons c tail => exact calm_cons_of_not (isNameChar_of_isSeam (h c rfl)) tail

/-- So a text that may follow a word does not. -/
theorem Gapped.calm {tail : List Char} (h : Gapped tail) : Calm tail :=
  calm_of_head? fun c hc => isSeam_of_isBlank (h c hc)

/-- The characters of an assigned secret could stand in a token. -/
theorem isVisible_of_isSecretChar {c : Char} (h : isSecretChar c = true) : isVisible c = true := by
  simp only [isSecretChar, Bool.not_eq_true', Bool.or_eq_false_iff] at h
  simp [isVisible, h.1.1]

/-- A name character is no blank. -/
theorem isBlank_of_isNameChar {c : Char} (h : isNameChar c = true) : Text.isBlank c = false := by
  by_contra hblank
  rw [isNameChar_of_isBlank (by simpa using hblank)] at h
  contradiction

/-- A text that starts with a name does so with more behind it. -/
theorem AtName.append {word : List Char} (h : AtName word) (tail : List Char) :
    AtName (word ++ tail) := by
  obtain ⟨c, rest, rfl, hc⟩ := h
  exact ⟨c, rest ++ tail, rfl, hc⟩

/-- Such a text is not empty. -/
theorem AtName.ne_nil {word : List Char} (h : AtName word) : word ≠ [] := by
  obtain ⟨c, rest, rfl, -⟩ := h
  simp

namespace Pattern

variable {first second pattern : Pattern}

/-! ## announcements -/

/-- At a blank in front of a name the pattern finds nothing, or it stops before the blank, or it
takes all up to the name. -/
def Reaches (pattern : Pattern) : Prop :=
  ∀ cs, (∀ tail, AtName tail → pattern (cs ++ ' ' :: tail) = none) ∨
    (∃ part left, cs = part ++ left ∧
      ∀ tail, AtName tail → pattern (cs ++ ' ' :: tail) = some (part, left ++ ' ' :: tail)) ∨
    ∀ tail, AtName tail → pattern (cs ++ ' ' :: tail) = some (cs ++ [' '], tail)

/-- No blanks stand in front of a name. -/
theorem takeWhile_isBlank {tail : List Char} (h : AtName tail) :
    tail.takeWhile Text.isBlank = [] := by
  obtain ⟨c, rest, rfl, hc⟩ := h
  simp [isBlank_of_isNameChar hc]

/-- So none are dropped there. -/
theorem dropWhile_isBlank {tail : List Char} (h : AtName tail) :
    tail.dropWhile Text.isBlank = tail := by
  obtain ⟨c, rest, rfl, hc⟩ := h
  simp [isBlank_of_isNameChar hc]

/-- Blanks in front of a gap go on up to the name, and characters of another kind end them. -/
theorem reaches_run : Reaches (run Text.isBlank) := by
  intro cs
  by_cases hstop : ∃ c ∈ cs, Text.isBlank c = false
  · refine .inr (.inl ⟨cs.takeWhile Text.isBlank, cs.dropWhile Text.isBlank,
      List.takeWhile_append_dropWhile.symm, fun tail _ => ?_⟩)
    rw [run, takeWhile_append_of_exists hstop, dropWhile_append_of_exists hstop]
  · have hall : ∀ c ∈ cs, Text.isBlank c = true := by simpa using hstop
    have hspace : Text.isBlank ' ' = true := by decide
    refine .inr (.inr fun tail htail => ?_)
    rw [run, List.takeWhile_append_of_pos hall, List.dropWhile_append_of_pos hall,
      List.takeWhile_cons_of_pos hspace, List.dropWhile_cons_of_pos hspace, takeWhile_isBlank htail,
      dropWhile_isBlank htail]

/-- Blanks end in front of a name. -/
theorem reaches_blanks : Reaches blanks := by
  intro cs
  cases cs with
  | nil =>
      have hspace : Text.isBlank ' ' = true := by decide
      refine .inr (.inr fun tail htail => ?_)
      simp [blanks, someOf, hspace, takeWhile_isBlank htail, dropWhile_isBlank htail]
  | cons c cs =>
      cases hc : Text.isBlank c with
      | false => exact .inl fun tail _ => by simp [blanks, someOf, hc]
      | true =>
          -- the run is not empty, so it is found as if none were needed
          have hrun : ∀ tail, blanks (c :: cs ++ ' ' :: tail) =
              run Text.isBlank (c :: cs ++ ' ' :: tail) := fun tail => by
            simp [blanks, someOf, run, hc]
          simpa only [hrun] using reaches_run (c :: cs)

/-- A part in front of the gap and then another part. -/
theorem StopsAt.andThen_reaches (hfirst : first.StopsAt ' ') (hsecond : second.Reaches) :
    (first.andThen second).Reaches := by
  intro cs
  rcases hfirst cs with hnone | ⟨part, left, rfl, hfound⟩
  · exact .inl fun tail _ => by rw [andThen, hnone, Option.bind_none]
  · simp only [andThen, hfound, Option.bind_some]
    rcases hsecond left with hnone | ⟨part', left', rfl, hfound'⟩ | hreach
    · exact .inl fun tail htail => by rw [hnone tail htail, Option.map_none]
    · refine .inr (.inl ⟨part ++ part', left', by simp, fun tail htail => ?_⟩)
      rw [hfound' tail htail, Option.map_some]
    · refine .inr (.inr fun tail htail => ?_)
      rw [hreach tail htail, Option.map_some, List.append_assoc]

/-- A part that may go on to the name and then another part that is not in a name. -/
theorem Reaches.andThen (hfirst : first.Reaches) (hsecond : second.Reaches)
    (hrefuse : ∀ tail, AtName tail → second tail = none) : (first.andThen second).Reaches := by
  intro cs
  rcases hfirst cs with hnone | ⟨part, left, rfl, hfound⟩ | hreach
  · exact .inl fun tail htail => by rw [Pattern.andThen, hnone tail htail, Option.bind_none]
  · rcases hsecond left with hnone | ⟨part', left', rfl, hfound'⟩ | hreach
    · refine .inl fun tail htail => ?_
      rw [Pattern.andThen, hfound tail htail, Option.bind_some, hnone tail htail, Option.map_none]
    · refine .inr (.inl ⟨part ++ part', left', by simp, fun tail htail => ?_⟩)
      rw [Pattern.andThen, hfound tail htail, Option.bind_some, hfound' tail htail, Option.map_some]
    · refine .inr (.inr fun tail htail => ?_)
      rw [Pattern.andThen, hfound tail htail, Option.bind_some, hreach tail htail, Option.map_some,
        List.append_assoc]
  · refine .inl fun tail htail => ?_
    rw [Pattern.andThen, hreach tail htail, Option.bind_some, hrefuse tail htail, Option.map_none]

/-- The sign of an assignment takes the blanks behind it, up to the name. -/
theorem reaches_assignment : assignment.Reaches := by
  refine reaches_run.andThen ((stopsAt_one (by decide)).andThen_reaches reaches_run) ?_
  rintro _ ⟨c, rest, rfl, hc⟩
  have hsign : (c = '=' || c = ':') = false := by
    rw [Bool.or_eq_false_iff, decide_eq_false_iff_not, decide_eq_false_iff_not]
    constructor
    · rintro rfl
      exact absurd hc (by decide)
    · rintro rfl
      exact absurd hc (by decide)
  simp [Pattern.andThen, one, hsign]

/-! ## secrets -/

/-- Behind the given text the pattern takes any word, and the same part of what follows it. -/
def Takes (pattern : Pattern) (cs : List Char) : Prop :=
  ∀ tail, Gapped tail → ∃ part rest, tail = part ++ rest ∧ Calm rest ∧
    ∀ word, IsWord word → pattern (cs ++ word ++ tail) = some (cs ++ word ++ part, rest)

/-- At a gap the pattern finds nothing, or it stops before the gap, or it takes any word behind. -/
def CoversGap (pattern : Pattern) : Prop :=
  ∀ cs, (∀ tail, AtName tail → pattern (cs ++ ' ' :: tail) = none) ∨
    (∃ part left, cs = part ++ left ∧
      ∀ tail, AtName tail → pattern (cs ++ ' ' :: tail) = some (part, left ++ ' ' :: tail)) ∨
    pattern.Takes (cs ++ [' '])

/-- A pattern that stops at a blank does not see what is behind the gap. -/
theorem StopsAt.coversGap (h : pattern.StopsAt ' ') : pattern.CoversGap := fun cs =>
  (h cs).imp (fun hnone tail _ => hnone tail) fun ⟨part, left, hcs, hfound⟩ =>
    .inl ⟨part, left, hcs, fun tail _ => hfound tail⟩

/-- Behind such a pattern one that covers the gap still does. -/
theorem StopsAt.andThen_coversGap (hfirst : first.StopsAt ' ') (hsecond : second.CoversGap) :
    (first.andThen second).CoversGap := by
  intro cs
  rcases hfirst cs with hnone | ⟨part, left, rfl, hfound⟩
  · exact .inl fun tail _ => by rw [andThen, hnone, Option.bind_none]
  · have hstep : ∀ tail, (first.andThen second) (part ++ left ++ ' ' :: tail) =
        (second (left ++ ' ' :: tail)).map fun b => (part ++ b.1, b.2) := fun tail => by
      rw [andThen, hfound, Option.bind_some]
    rcases hsecond left with hnone | ⟨part', left', rfl, hfound'⟩ | htakes
    · exact .inl fun tail htail => by rw [hstep, hnone tail htail, Option.map_none]
    · refine .inr (.inl ⟨part ++ part', left', by simp, fun tail htail => ?_⟩)
      rw [hstep, hfound' tail htail, Option.map_some]
    · refine .inr (.inr fun tail htail => ?_)
      obtain ⟨part', rest, hsplit, hcalm, hword⟩ := htakes tail htail
      refine ⟨part', rest, hsplit, hcalm, fun word h => ?_⟩
      have hfound' := hword word h
      simp only [List.append_assoc, List.cons_append, List.nil_append] at hfound' hstep ⊢
      rw [hstep, hfound', Option.map_some]

/-- A pattern that goes on over the blank covers the gap together with one that takes the word. -/
theorem Reaches.andThen_coversGap (hfirst : first.Reaches) (hgap : second.CoversGap)
    (hword : second.Takes []) : (first.andThen second).CoversGap := by
  intro cs
  rcases hfirst cs with hnone | ⟨part, left, rfl, hfound⟩ | hreach
  · exact .inl fun tail htail => by rw [Pattern.andThen, hnone tail htail, Option.bind_none]
  · have hstep : ∀ tail, AtName tail → (first.andThen second) (part ++ left ++ ' ' :: tail) =
        (second (left ++ ' ' :: tail)).map fun b => (part ++ b.1, b.2) := fun tail htail => by
      rw [Pattern.andThen, hfound tail htail, Option.bind_some]
    rcases hgap left with hnone | ⟨part', left', rfl, hfound'⟩ | htakes
    · exact .inl fun tail htail => by rw [hstep tail htail, hnone tail htail, Option.map_none]
    · refine .inr (.inl ⟨part ++ part', left', by simp, fun tail htail => ?_⟩)
      rw [hstep tail htail, hfound' tail htail, Option.map_some]
    · refine .inr (.inr fun tail htail => ?_)
      obtain ⟨part', rest, hsplit, hcalm, hword⟩ := htakes tail htail
      refine ⟨part', rest, hsplit, hcalm, fun word h => ?_⟩
      have hfound' := hword word h
      have hfirst' := hstep (word ++ tail) (h.atName.append tail)
      simp only [List.append_assoc, List.cons_append, List.nil_append] at hfound' hfirst' ⊢
      rw [hfirst', hfound', Option.map_some]
  · refine .inr (.inr fun tail htail => ?_)
    obtain ⟨part, rest, hsplit, hcalm, hword⟩ := hword tail htail
    refine ⟨part, rest, hsplit, hcalm, fun word h => ?_⟩
    have hfound := hword word h
    have hfirst' := hreach (word ++ tail) (h.atName.append tail)
    simp only [List.append_assoc, List.cons_append, List.nil_append] at hfound ⊢
    rw [Pattern.andThen, hfirst', Option.bind_some, hfound, Option.map_some]
    simp

/-- A pattern that covers the gap may be left out. -/
theorem CoversGap.optionally (h : pattern.CoversGap) : pattern.optionally.CoversGap := by
  intro cs
  rcases h cs with hnone | ⟨part, left, hcs, hfound⟩ | htakes
  · refine .inr (.inl ⟨[], cs, rfl, fun tail htail => ?_⟩)
    rw [Pattern.optionally, hnone tail htail, Option.none_or]
  · refine .inr (.inl ⟨part, left, hcs, fun tail htail => ?_⟩)
    rw [Pattern.optionally, hfound tail htail, Option.some_or]
  · refine .inr (.inr fun tail htail => ?_)
    obtain ⟨part, rest, hsplit, hcalm, hword⟩ := htakes tail htail
    refine ⟨part, rest, hsplit, hcalm, fun word h => ?_⟩
    rw [Pattern.optionally, hword word h, Option.some_or]

variable {p : Char → Bool}

/-- Characters of a kind are taken up to the first one of another kind. -/
theorem someOf_append {word tail : List Char} (hne : word ≠ []) (hword : ∀ c ∈ word, p c = true)
    (htail : ∀ c, tail.head? = some c → p c = false) :
    someOf p (word ++ tail) = some (word, tail) := by
  have hstop : tail.takeWhile p = [] ∧ tail.dropWhile p = tail := by
    cases tail with
    | nil => exact ⟨rfl, rfl⟩
    | cons c tail => simp [htail c rfl]
  rw [someOf, List.takeWhile_append_of_pos hword, List.dropWhile_append_of_pos hword, hstop.1,
    hstop.2]
  simp [hne]

/-- Characters of a kind that no blanks are of are taken up to the next blank. -/
theorem someOf_gapped (hblank : ∀ c, Text.isBlank c = true → p c = false) {word tail : List Char}
    (hne : word ≠ []) (hword : ∀ c ∈ word, p c = true) (htail : Gapped tail) :
    someOf p (word ++ tail) = some (word, tail) :=
  someOf_append hne hword fun c hc => hblank c (htail c hc)

/-- An assigned secret is the word that stands there, and ends where the word does. -/
theorem assigned_gapped {word tail : List Char} (hne : word ≠ [])
    (hword : ∀ c ∈ word, isSecretChar c = true) (htail : Gapped tail) :
    assigned (word ++ tail) = some (word, tail) :=
  someOf_gapped (fun c hc => by simp [isSecretChar, hc]) hne hword htail

/-- An assigned secret takes any word. -/
theorem takes_assigned : assigned.Takes [] := fun tail htail =>
  ⟨[], tail, rfl, htail.calm, fun word h => by
    simpa using assigned_gapped h.atName.ne_nil h.secret htail⟩

/-- An assigned secret stops at a blank. -/
theorem coversGap_assigned : assigned.CoversGap := (stopsAt_someOf (by decide)).coversGap

/-- Credentials with a scheme are taken with the scheme. -/
theorem takes_header : authorizationRule.secret.Takes [] := by
  intro tail htail
  obtain ⟨part, rest, hoption⟩ :
      ∃ part rest, optionally (blanks.andThen assigned) tail = some (part, rest) := by
    unfold optionally
    cases (blanks.andThen assigned) tail with
    | none => exact ⟨_, _, rfl⟩
    | some found => exact ⟨_, _, rfl⟩
  have hsplits := splits_optionally (splits_andThen splits_blanks (splits_someOf isSecretChar))
  refine ⟨part, rest, hsplits tail part rest hoption, calm_of_head? fun c hc => ?_, ?_⟩
  · unfold optionally at hoption
    cases hfound : (blanks.andThen assigned) tail with
    | none =>
        simp only [hfound, Option.none_or, Option.some.injEq, Prod.mk.injEq] at hoption
        exact isSeam_of_isBlank (htail c (hoption.2 ▸ hc))
    | some found =>
        simp only [hfound, Option.some_or, Option.some.injEq] at hoption
        exact endsAtSeam_assigned.andThen tail part rest (hfound.trans (congrArg some hoption)) c hc
  · intro word h
    have hvisible := someOf_gapped (fun c hc => by simp [isVisible, hc]) h.atName.ne_nil
      (fun c hc => isVisible_of_isSecretChar (h.secret c hc)) htail
    simp only [authorizationRule, List.nil_append, Pattern.andThen, hvisible, Option.bind_some,
      hoption, Option.map_some]

/-- The credentials of a header cover the gap: the second word of them may stand behind it. -/
theorem coversGap_header : authorizationRule.secret.CoversGap :=
  (stopsAt_someOf (by decide)).andThen_coversGap
    (reaches_blanks.andThen_coversGap coversGap_assigned takes_assigned).optionally

end Pattern

/-! ## rules -/

/-- The announcement of a header goes on over a blank. -/
theorem reaches_authorization : authorizationRule.announcement.Reaches :=
  (Pattern.stopsAt_word (by decide)).andThen_reaches Pattern.reaches_blanks

/-- So does the announcement of a token. -/
theorem reaches_bearer : bearerRule.announcement.Reaches :=
  (Pattern.stopsAt_word (by decide)).andThen_reaches Pattern.reaches_blanks

/-- So does the announcement of a secret by its name. -/
theorem reaches_namedSecret : namedSecretRule.announcement.Reaches :=
  (Pattern.stopsAt_nameEndingIn (by decide)).andThen_reaches Pattern.reaches_assignment

variable {rule : Rule} {mask : List Char}

/-- At a gap nothing is announced, or the announcement stops before it or goes on to the name. -/
theorem find?_of_reaches (hreach : rule.announcement.Reaches) (previous : Option Char)
    (cs : List Char) :
    (∀ tail, AtName tail → rule.find? previous (cs ++ ' ' :: tail) = none) ∨
      (∃ lead left, cs = lead ++ left ∧ ∀ tail, AtName tail →
        rule.find? previous (cs ++ ' ' :: tail) =
          (rule.secret (left ++ ' ' :: tail)).map fun secret => (lead, secret.1)) ∨
      ∀ tail, AtName tail → rule.find? previous (cs ++ ' ' :: tail) =
        (rule.secret tail).map fun secret => (cs ++ [' '], secret.1) := by
  cases hword : rule.startsWord && previous.any Text.isWordChar with
  | true => exact .inl fun tail _ => Rule.find?_eq_none hword _
  | false =>
      have hfind := Rule.find?_eq_bind hword
      rcases hreach cs with hnone | ⟨lead, left, rfl, hlead⟩ | hreach
      · exact .inl fun tail htail => by rw [hfind, hnone tail htail, Option.bind_none]
      · refine .inr (.inl ⟨lead, left, rfl, fun tail htail => ?_⟩)
        rw [hfind, hlead tail htail, Option.bind_some]
      · refine .inr (.inr fun tail htail => ?_)
        rw [hfind, hreach tail htail, Option.bind_some]

/-- From here on the rule replaces any word behind the gap, and the same part of what follows. -/
def Swallows (rule : Rule) (previous : Option Char) (cs : List Char) : Prop :=
  ∀ tail, Gapped tail → ∃ lead part rest, tail = part ++ rest ∧ Calm rest ∧
    ∀ word, IsWord word → ∃ secret, cs ++ ' ' :: (word ++ part) = lead ++ secret ∧
      rule.find? previous (cs ++ ' ' :: (word ++ tail)) = some (lead, secret)

/-- Either the text alone decides what a rule does in front of the gap, or the rule takes the word
behind it. -/
theorem Rule.Sound.decides_or_swallows (hsound : rule.Sound) (hreach : rule.announcement.Reaches)
    (hgap : rule.secret.CoversGap) (hword : rule.secret.Takes []) (previous : Option Char)
    (cs : List Char) :
    Decides rule AtGap previous cs ∨ Swallows rule previous cs := by
  rcases find?_of_reaches hreach previous cs with hnone | ⟨lead, left, rfl, hlead⟩ | hreach
  · exact .inl (.inl fun _ ⟨tail, htail, h⟩ => h ▸ hnone tail htail)
  · rcases hgap left with hnone | ⟨secret, behind, rfl, hsecret⟩ | htakes
    · refine .inl (.inl ?_)
      rintro _ ⟨tail, htail, rfl⟩
      rw [hlead tail htail, hnone tail htail, Option.map_none]
    · have hfound : ∀ tail, AtGap tail →
          rule.find? previous (lead ++ (secret ++ behind) ++ tail) = some (lead, secret) := by
        rintro _ ⟨tail, htail, rfl⟩
        rw [hlead tail htail, hsecret tail htail, Option.map_some]
      exact .inl (hsound.decides atGap_letter (List.append_assoc ..).symm hfound)
    · refine .inr fun tail htail => ?_
      obtain ⟨part, rest, hsplit, hcalm, hword⟩ := htakes tail htail
      refine ⟨lead, part, rest, hsplit, hcalm, fun word h =>
        ⟨left ++ ' ' :: (word ++ part), ?_, ?_⟩⟩
      · simp
      · have hfound := hword word h
        simp only [List.append_assoc, List.cons_append, List.nil_append] at hfound
        rw [hlead _ (h.atName.append tail), hfound, Option.map_some]
  · refine .inr fun tail htail => ?_
    obtain ⟨part, rest, hsplit, hcalm, hword⟩ := hword tail htail
    refine ⟨cs ++ [' '], part, rest, hsplit, hcalm, fun word h => ⟨word ++ part, by simp, ?_⟩⟩
    have hfound := hword word h
    simp only [List.nil_append] at hfound
    rw [hreach _ (h.atName.append tail), hfound, Option.map_some]

/-- A text passes in front of a gap, or what the rule writes for it and a word behind the gap has
nothing of the word in it. -/
theorem Rule.Sound.passes_or_swallows (hsound : rule.Sound) (hreach : rule.announcement.Reaches)
    (hgap : rule.secret.CoversGap) (hword : rule.secret.Takes []) (mask : List Char)
    (previous : Option Char) (cs : List Char) :
    (∃ out, Passes rule mask AtGap previous cs out) ∨
      ∀ tail, Gapped tail → ∃ out rest, rest <:+ tail ∧ ∀ word, IsWord word →
        scrub rule mask 0 previous (cs ++ ' ' :: (word ++ tail)) =
          out ++ mask ++ scrub rule mask 0 none rest := by
  rcases passes_or mask
    (fun previous cs _ => hsound.decides_or_swallows hreach hgap hword previous cs)
    previous cs with hpasses | ⟨front, back, out, rfl, hpasses, hswallows⟩
  · exact .inl hpasses
  · refine .inr fun tail htail => ?_
    obtain ⟨lead, part, rest, rfl, hcalm, hfind⟩ := hswallows tail htail
    refine ⟨out ++ lead, rest, List.suffix_append _ _, fun word h => ?_⟩
    obtain ⟨secret, hpart, hfound⟩ := hfind word h
    have hgap : ∃ t, AtGap t ∧ back ++ ' ' :: (word ++ (part ++ rest)) = back ++ t :=
      ⟨_, ⟨_, h.atName.append _, rfl⟩, rfl⟩
    have htext : back ++ ' ' :: (word ++ (part ++ rest)) = lead ++ secret ++ rest := by
      rw [← hpart]
      simp
    rw [List.append_assoc, hpasses.scrub_eq hgap]
    rw [htext] at hfound ⊢
    rw [scrub_replaced (hsound.ne_nil hfound) hfound, hsound.scrub_calm hcalm]
    simp

/-- A character that is neither a blank nor a sign of an assignment. -/
structure IsPlain (c : Char) : Prop where
  visible : Text.isBlank c = false
  sign : c ≠ '=' ∧ c ≠ ':'

/-- A text that ends in blanks behind a plain character. -/
def EndsPlain (cs : List Char) : Prop :=
  ∃ front d gap, cs = front ++ d :: gap ∧ IsPlain d ∧ gap ≠ [] ∧
    ∀ c ∈ gap, Text.isBlank c = true

/-- A secret that is found was announced. -/
theorem exists_announcement {previous : Option Char} {cs lead secret : List Char}
    (h : rule.find? previous cs = some (lead, secret)) :
    ∃ left, rule.announcement cs = some (lead, left) := by
  simp only [Rule.find?, Option.ite_none_left_eq_some, Option.bind_eq_some_iff,
    Option.map_eq_some_iff] at h
  obtain ⟨-, ⟨lead', left⟩, hlead, found, -, hpair⟩ := h
  obtain ⟨rfl, -⟩ := Prod.mk.inj hpair
  exact ⟨left, hlead⟩

/-- The announcement of a token is the word for it and blanks. -/
theorem endsPlain_of_announcement {cs lead rest : List Char} (front : List Char)
    (h : bearerRule.announcement cs = some (lead, rest)) : EndsPlain (front ++ lead) := by
  simp only [bearerRule, Pattern.andThen, Pattern.word, Option.bind_eq_some_iff,
    Option.ite_none_right_eq_some, Option.map_eq_some_iff, Option.some.injEq] at h
  obtain ⟨found, ⟨hword, rfl⟩, ⟨gap, left⟩, hgap, hpair⟩ := h
  obtain ⟨rfl, rfl⟩ := Prod.mk.inj hpair
  simp only [blanks, Pattern.someOf, Option.ite_none_left_eq_some, Option.some.injEq,
    Prod.mk.injEq] at hgap
  obtain ⟨hne, hgap, -⟩ := hgap
  have hgapped : gap ≠ [] ∧ ∀ c ∈ gap, Text.isBlank c = true := by
    rw [← hgap]
    exact ⟨by simpa only [List.isEmpty_iff] using hne, fun c hc => List.mem_takeWhile_imp hc⟩
  generalize cs.take "bearer".toList.length = herald at hword ⊢
  -- the last letter of the word is an R in either case, and so is plain
  obtain ⟨start, last, rfl, -, hlast⟩ := List.map_eq_append_iff.mp
    (hword.trans (rfl : _ = "beare".toList ++ ['r']))
  obtain ⟨d, rfl, hd⟩ := List.map_eq_singleton_iff.mp hlast
  refine ⟨front ++ start, d, gap, by simp, ⟨?_, ?_, ?_⟩, hgapped⟩
  · by_contra hblank
    have hblank : Text.isBlank d = true := by simpa using hblank
    rw [foldCase_of_isBlank hblank] at hd
    rw [hd] at hblank
    exact absurd hblank (by decide)
  · rintro rfl
    exact absurd hd (by decide)
  · rintro rfl
    exact absurd hd (by decide)

/-- A text passes in front of a gap, or a token at the start of the name behind it is replaced. -/
theorem passes_or_takes (mask : List Char) (previous : Option Char) (cs : List Char) :
    (∃ out, Passes bearerRule mask AtGap previous cs out) ∨
      ∃ out, EndsPlain out ∧
        ∀ tail token rest, AtName tail → bearerRule.secret tail = some (token, rest) →
          ∃ before, scrub bearerRule mask 0 previous (cs ++ ' ' :: tail) =
            out ++ mask ++ scrub bearerRule mask 0 before rest := by
  have hsound := sound_bearerRule
  have hstops : bearerRule.secret.StopsAt ' ' :=
    Pattern.stopsAt_andThen (Pattern.stopsAt_someOf (by decide)) (Pattern.stopsAt_run (by decide))
  -- at each place the search is decided within the text, or the announcement ends with the blank
  -- and the token is what stands at the start of the name
  have hlocal : ∀ (previous : Option Char) (cs : List Char), cs ≠ [] →
      Decides bearerRule AtGap previous cs ∨
      ∀ tail, AtName tail → bearerRule.find? previous (cs ++ ' ' :: tail) =
        (bearerRule.secret tail).map fun secret => (cs ++ [' '], secret.1) := by
    intro previous cs _
    rcases find?_of_reaches reaches_bearer previous cs with
      hnone | ⟨lead, left, rfl, hlead⟩ | hreach
    · exact .inl (.inl fun _ ⟨tail, htail, h⟩ => h ▸ hnone tail htail)
    · rcases hstops left with hnone | ⟨secret, behind, rfl, hsecret⟩
      · refine .inl (.inl ?_)
        rintro _ ⟨tail, htail, rfl⟩
        rw [hlead tail htail, hnone, Option.map_none]
      · have hfound : ∀ tail, AtGap tail →
            bearerRule.find? previous (lead ++ (secret ++ behind) ++ tail) =
              some (lead, secret) := by
          rintro _ ⟨tail, htail, rfl⟩
          rw [hlead tail htail, hsecret, Option.map_some]
        exact .inl (hsound.decides atGap_letter (List.append_assoc ..).symm hfound)
    · exact .inr hreach
  rcases passes_or mask hlocal previous cs with
    hpasses | ⟨front, back, out, rfl, hpasses, htakes⟩
  · exact .inl hpasses
  · -- only an announcement can reach the blank, and it ends with the word for tokens
    obtain ⟨left, hannounced⟩ := exists_announcement (htakes ['x'] atName_letter)
    have hplain := endsPlain_of_announcement out hannounced
    rw [← List.append_assoc] at hplain
    refine .inr ⟨out ++ back ++ [' '], hplain, fun tail token rest htail htoken => ?_⟩
    have hgap : ∃ t, AtGap t ∧ back ++ ' ' :: tail = back ++ t := ⟨_, ⟨_, htail, rfl⟩, rfl⟩
    have hfound := htakes tail htail
    rw [htoken, Option.map_some] at hfound
    have htext : back ++ ' ' :: tail = back ++ [' '] ++ token ++ rest := by
      rw [hsound.splits_secret tail token rest htoken]
      simp
    rw [List.append_assoc, hpasses.scrub_eq hgap]
    rw [htext] at hfound ⊢
    rw [scrub_replaced (by simp) hfound]
    exact ⟨(back ++ [' '] ++ token).getLast?.or (front.getLast?.or previous), by
      simp only [List.append_assoc]⟩

end Runbook.Redaction

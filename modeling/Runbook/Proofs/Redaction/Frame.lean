import Runbook.Proofs.Redaction.Exposure
import Runbook.Proofs.Redaction.Literal

/-!
# Runbook.Proofs.Redaction.Frame

A secret as the value of its key in a data text. There it stands in quotes behind the quoted key and
a colon, and no rule announces it: the quote behind the key ends every announcement. Whatever the
rules do in front of the secret they do in the same way for all secrets (`Carries`), even where the
rule for headers takes the key for a credential, and the secret itself is redacted on its own
(`scrub_shut`). So the redacted text is again a text around the redacted secret
(`redactWith_fill`), and it tells two secrets apart that are not redacted to the same
(`fill_inj`).
-/

namespace Runbook.Redaction

variable {rule : Rule} {mask : List Char} {previous : Option Char}

/-! ## marks of data texts -/

/-- Marks of data texts that no announcement goes over. -/
def bars : List Char := ['"', ',', '{', ']']

/-- The marks of data texts are plain: no rule takes them for a part of an assignment. -/
theorem isPlain_bar : ∀ d ∈ bars, IsPlain d := by
  have hbars : ∀ d ∈ bars, Text.isBlank d = false ∧ d ≠ '=' ∧ d ≠ ':' := by decide
  exact fun d hd => ⟨(hbars d hd).1, (hbars d hd).2⟩

/-- No announcement goes over a mark of data texts. -/
theorem stopsAt_bar : ∀ rule ∈ rules, ∀ d ∈ bars, rule.announcement.StopsAt d := by
  have hwords : ∀ w ∈ ["authorization:", "bearer", "database_url", "redis_url", "mongodb_uri"],
      ∀ d ∈ bars, foldCase d ∉ w.toList := by decide
  have hname : ∀ d ∈ bars, isNameChar d = false := by decide
  have hblanks : ∀ d ∈ bars, blanks.StopsAt d := fun d hd =>
    Pattern.stopsAt_someOf (isPlain_bar d hd).visible
  have hassignment : ∀ d ∈ bars, assignment.StopsAt d := fun d hd =>
    stopsAt_assignment_of_isPlain (isPlain_bar d hd)
  simp only [List.forall_mem_cons, List.not_mem_nil, false_imp_iff, implies_true,
    and_true] at hwords
  obtain ⟨hheader, hbearer, hdatabase, hredis, hmongodb⟩ := hwords
  refine forall_mem_rules (fun d hd => ?_) (fun d hd => ?_) (fun d hd => ?_) (fun d hd => ?_)
  · exact Pattern.stopsAt_andThen (Pattern.stopsAt_word (hheader d hd)) (hblanks d hd)
  · exact Pattern.stopsAt_andThen (Pattern.stopsAt_word (hbearer d hd)) (hblanks d hd)
  · exact Pattern.stopsAt_andThen (Pattern.stopsAt_nameEndingIn (hname d hd)) (hassignment d hd)
  · refine Pattern.stopsAt_andThen (Pattern.stopsAt_firstOf ?_) (hassignment d hd)
    simp only [List.forall_mem_cons, List.not_mem_nil, false_imp_iff, implies_true, and_true]
    exact ⟨Pattern.stopsAt_word (hdatabase d hd), Pattern.stopsAt_word (hredis d hd),
      Pattern.stopsAt_word (hmongodb d hd)⟩

/-- A rule announces with a word and blanks, or it takes an assigned secret. -/
theorem heralds_or_assigned : ∀ rule ∈ rules,
    (∃ word, rule.Heralds word) ∨ rule.secret = assigned :=
  forall_mem_rules (.inl ⟨_, heralds_authorization⟩) (.inl ⟨_, heralds_bearer⟩) (.inr rfl)
    (.inr rfl)

/-- There is a blank in the announcement of a rule that announces with a word and blanks. -/
theorem Rule.Heralds.exists_blank {word cs lead rest : List Char} (h : rule.Heralds word)
    (hlead : rule.announcement cs = some (lead, rest)) : ∃ c ∈ lead, Text.isBlank c = true := by
  simp only [h.announcement, Pattern.andThen, Option.bind_eq_some_iff, Option.map_eq_some_iff,
    blanks, Pattern.someOf, Option.ite_none_left_eq_some] at hlead
  obtain ⟨⟨name, left⟩, -, ⟨gap, behind⟩, ⟨hsome, hgap⟩, hpair⟩ := hlead
  obtain ⟨rfl, -⟩ := Prod.mk.inj hpair
  obtain ⟨rfl, -⟩ := Prod.mk.inj (Option.some.inj hgap)
  cases hrun : left.takeWhile Text.isBlank with
  | nil => simp [hrun] at hsome
  | cons c gap =>
      have hc : c ∈ left.takeWhile Text.isBlank := by simp [hrun]
      exact ⟨c, by simp, List.mem_takeWhile_imp hc⟩

/-! ## a word in quotes -/

/-- Texts into which no assigned secret goes on. -/
def Fenced (tail : List Char) : Prop := ∀ c, tail.head? = some c → isSecretChar c = false

/-- No secret goes on behind the end of a text. -/
theorem fenced_nil : Fenced [] := fun c hc => by simp at hc

/-- Nor into a text that starts with no character of secrets. -/
theorem fenced_cons {c : Char} (hc : isSecretChar c = false) (tail : List Char) :
    Fenced (c :: tail) := fun d hd => by
  obtain rfl : c = d := Option.some.inj hd
  exact hc

/-- A fenced text stays so with another one behind it, also if it is empty itself. -/
theorem Fenced.append {first second : List Char} (hfirst : Fenced first)
    (hsecond : Fenced second) : Fenced (first ++ second) := by
  cases first with
  | nil => exact hsecond
  | cons c first => exact hfirst

/-- A fenced text announces nothing at its front. -/
theorem Fenced.calm {tail : List Char} (h : Fenced tail) : Calm tail :=
  calm_of_head? fun c hc => isSeam_of_isSecretChar (h c hc)

/-- What a rule makes of a fenced text is fenced. -/
theorem fenced_scrub (hsound : rule.Sound) {tail : List Char} (h : Fenced tail) :
    Fenced (scrub rule mask 0 none tail) := by
  cases tail with
  | nil => exact h
  | cons c tail =>
      rw [scrub_kept (hsound.find?_calm h.calm)]
      exact h

/-- A text that starts with a quote and ends with a mark, with no blank, comma or semicolon in it: a
word in quotes, or what the rules make of it. -/
structure IsShut (cs : List Char) : Prop where
  head : cs.head? = some '"'
  chars : ∀ c ∈ cs, isSecretChar c = true
  last : ∃ d ∈ bars, cs.getLast? = some d

/-- A single quote is the shortest text of its kind. -/
theorem isShut_quote : IsShut ['"'] := ⟨rfl, by decide, '"', by decide, rfl⟩

/-- What stands in the place of a secret ends with a mark, and no blank, comma or semicolon is in
it. -/
structure IsMask (mask : List Char) : Prop where
  chars : ∀ c ∈ mask, isSecretChar c = true
  last : ∃ d ∈ bars, mask.getLast? = some d

/-- The usual mask is a mask as the rules need it. -/
theorem isMask_mask : IsMask Redaction.mask.toList :=
  ⟨by decide, ']', by decide, by decide⟩

/-- A mask is not empty. -/
theorem IsMask.ne_nil (h : IsMask mask) : mask ≠ [] := by
  obtain ⟨d, -, hd⟩ := h.last
  rintro rfl
  contradiction

/-- A word in quotes starts with a quote. -/
theorem IsShut.exists_cons {cs : List Char} (h : IsShut cs) : ∃ rest, cs = '"' :: rest := by
  cases cs with
  | nil => exact absurd h.head (by simp)
  | cons c rest => exact ⟨rest, by rw [Option.some.inj h.head]⟩

/-- So it announces nothing at its front. -/
theorem IsShut.calm {cs : List Char} (h : IsShut cs) (tail : List Char) : Calm (cs ++ tail) := by
  obtain ⟨rest, rfl⟩ := h.exists_cons
  exact calm_cons_of_not (by decide) (rest ++ tail)

/-- The escape of a character of secrets consists of such characters. -/
theorem isSecretChar_escapeChar {c : Char} (h : isSecretChar c = true) :
    ∀ d ∈ escapeChar c, isSecretChar d = true := by
  by_cases hcontrol : c.toNat < 32
  · have hall : ∀ n < 32, ∀ d ∈ escapeChar (Char.ofNat n), isSecretChar d = true := by decide
    exact Text.of_toNat_lt (P := fun c => ∀ d ∈ escapeChar c, isSecretChar d = true) hall hcontrol
  · unfold escapeChar
    repeat' split
    all_goals first
      | decide
      | skip
    simpa using h

/-- A string in quotes is such a text if there are no blanks, commas and semicolons in it. -/
theorem isShut_quoted {s : String} (h : ∀ c ∈ s.toList, isSecretChar c = true) :
    IsShut (quoted s) where
  head := rfl
  chars := by
    rw [quoted, List.cons_append, List.forall_mem_cons, List.forall_mem_append]
    refine ⟨by decide, fun d hd => ?_, by decide⟩
    obtain ⟨c, hc, hd⟩ := List.mem_flatMap.mp hd
    exact isSecretChar_escapeChar (h c hc) d hd
  last := ⟨'"', by decide,
    List.getLast?_eq_some_iff.mpr ⟨'"' :: s.toList.flatMap escapeChar, rfl⟩⟩

/-- An assigned secret is the whole word in front of a fenced text. -/
theorem assigned_fenced {word tail : List Char} (hne : word ≠ [])
    (hword : ∀ c ∈ word, isSecretChar c = true) (htail : Fenced tail) :
    assigned (word ++ tail) = some (word, tail) :=
  Pattern.someOf_append hne hword htail

/-- In a text without blanks, commas and semicolons that ends with a mark, a secret is found or not
whatever fence stands behind. -/
theorem decides_shut (hrule : rule ∈ rules) {d : Char} (hd : d ∈ bars) {cs : List Char}
    (hcs : ∀ c ∈ cs ++ [d], isSecretChar c = true) (previous : Option Char) :
    Decides rule Fenced previous (cs ++ [d]) := by
  have hsound := sound_of_mem_rules rule hrule
  cases hword : rule.startsWord && previous.any Text.isWordChar with
  | true => exact .inl fun tail _ => Rule.find?_eq_none hword _
  | false =>
      have hfind := Rule.find?_eq_bind hword
      rcases stopsAt_bar rule hrule d hd cs with hnone | ⟨lead, left, rfl, hlead⟩
      · refine .inl fun tail _ => ?_
        rw [hfind, List.append_assoc, List.singleton_append, hnone, Option.bind_none]
      rcases heralds_or_assigned rule hrule with ⟨word, hheralds⟩ | hassigned
      · obtain ⟨c, hc, hblank⟩ := hheralds.exists_blank (hlead [])
        have hchar := isVisible_of_isSecretChar (hcs c (by simp [hc]))
        simp [isVisible, hblank] at hchar
      · have htext : lead ++ left ++ [d] = lead ++ (left ++ [d]) ++ [] := by simp
        refine hsound.decides fenced_nil htext fun tail htail => ?_
        have hsecret : assigned (left ++ [d] ++ tail) = some (left ++ [d], tail) :=
          assigned_fenced (by simp) (fun c hc => hcs c (by simp_all)) htail
        rw [List.append_assoc, List.singleton_append] at hsecret ⊢
        rw [hfind, hlead, Option.bind_some, hassigned, hsecret, Option.map_some]

/-- What is written for a text has no character that is neither in the text nor in the mask. -/
theorem Passes.forall_mem {Tail : List Char → Prop} {p : Char → Prop} {cs out : List Char}
    (h : Passes rule mask Tail previous cs out) (hcs : ∀ c ∈ cs, p c) (hmask : ∀ c ∈ mask, p c) :
    ∀ c ∈ out, p c := by
  induction h with
  | done previous => exact hcs
  | kept hfind hpasses ih =>
      rw [List.forall_mem_cons] at hcs ⊢
      exact ⟨hcs.1, ih hcs.2⟩
  | replaced hlead hfind hpasses ih =>
      simp only [List.forall_mem_append] at hcs ⊢
      exact ⟨⟨hcs.1.1, hmask⟩, ih hcs.2⟩

/-- A rule deals with a word in quotes on its own. -/
theorem IsShut.exists_passes {cs : List Char} (h : IsShut cs) (hrule : rule ∈ rules)
    (mask : List Char) : ∃ out, Passes rule mask Fenced none cs out := by
  obtain ⟨d, hd, hlast⟩ := h.last
  obtain ⟨front, rfl⟩ := List.getLast?_eq_some_iff.mp hlast
  have hlocal : ∀ previous cs, Decides rule Fenced previous (cs ++ [d]) ∨
      ¬∀ c ∈ cs ++ [d], isSecretChar c = true := fun previous cs =>
    (em (∀ c ∈ cs ++ [d], isSecretChar c = true)).imp_left fun hcs =>
      decides_shut hrule hd hcs previous
  refine (passes_or_of_last mask (fun _ cs => ¬∀ c ∈ cs, isSecretChar c = true) hlocal none
    front).resolve_right ?_
  rintro ⟨start, back, -, hsplit, -, hback⟩
  exact hback fun c hc => h.chars c (hsplit ▸ List.mem_append_right start hc)

/-- In front of a fence a word in quotes is redacted on its own. -/
theorem scrub_shut (hrule : rule ∈ rules) {cs tail : List Char} (h : IsShut cs)
    (htail : Fenced tail) (previous : Option Char) :
    scrub rule mask 0 previous (cs ++ tail) =
      scrub rule mask 0 none cs ++ scrub rule mask 0 none tail := by
  have hsound := sound_of_mem_rules rule hrule
  obtain ⟨out, hpasses⟩ := h.exists_passes hrule mask
  have halone : scrub rule mask 0 none cs = out := by
    simpa [scrub] using hpasses.scrub_eq fenced_nil
  rw [hsound.scrub_calm (h.calm tail), hpasses.scrub_eq htail, hsound.scrub_calm htail.calm, halone]

/-- What it makes of the word is of the same kind. -/
theorem isShut_scrub (hrule : rule ∈ rules) (hmask : IsMask mask) {cs : List Char} (h : IsShut cs) :
    IsShut (scrub rule mask 0 none cs) := by
  have hsound := sound_of_mem_rules rule hrule
  have hpasses := hsound.exists_passes mask none cs
  refine ⟨?_, hpasses.forall_mem h.chars hmask.chars, ?_⟩
  · obtain ⟨rest, rfl⟩ := h.exists_cons
    rw [scrub_kept (hsound.find?_calm (calm_cons_of_not (by decide) rest))]
    rfl
  · rcases hsound.getLast?_scrub hmask.ne_nil none cs with hsame | hmasked
    · rw [hsame]
      exact h.last
    · rw [hmasked]
      exact hmask.last

/-! ## in front of a blank -/

/-- Texts that start with a given character. -/
def Starting (g : Char) (tail : List Char) : Prop := ∃ rest, tail = g :: rest

/-- In front of two marks side by side the pattern finds nothing, or a part that ends between them
at the latest; it does not see what stands behind them. -/
def Pattern.SettlesAt (d g : Char) (pattern : Pattern) : Prop :=
  ∀ cs, (∀ rest, pattern (cs ++ d :: g :: rest) = none) ∨
    ∃ part left, cs ++ [d] = part ++ left ∧
      ∀ rest, pattern (cs ++ d :: g :: rest) = some (part, left ++ g :: rest)

namespace Pattern

variable {first second pattern : Pattern} {d g : Char}

/-- A pattern that stops at the first mark, and one behind it that stops at the second, settle
between the two. -/
theorem StopsAt.andThen_settlesAt (hfirst : first.StopsAt d) (hsecond : second.StopsAt g) :
    (first.andThen second).SettlesAt d g := by
  intro cs
  rcases hfirst cs with hnone | ⟨part, left, rfl, hfound⟩
  · exact .inl fun rest => by rw [andThen, hnone, Option.bind_none]
  · rcases hsecond (left ++ [d]) with hnone | ⟨part', left', hsplit, hfound'⟩
    · refine .inl fun rest => ?_
      have hsecond' := hnone rest
      rw [List.append_assoc, List.singleton_append] at hsecond'
      rw [andThen, hfound, Option.bind_some, hsecond', Option.map_none]
    · refine .inr ⟨part ++ part', left', by rw [List.append_assoc, hsplit, List.append_assoc], ?_⟩
      intro rest
      have hsecond' := hfound' rest
      rw [List.append_assoc, List.singleton_append] at hsecond'
      rw [andThen, hfound, Option.bind_some, hsecond', Option.map_some]

/-- If the second one is left out they settle in front of the first mark. -/
theorem SettlesAt.optionally (h : pattern.SettlesAt d g) (cs : List Char) :
    ∃ part left, cs ++ [d] = part ++ left ∧
      ∀ rest, pattern.optionally (cs ++ d :: g :: rest) = some (part, left ++ g :: rest) := by
  rcases h cs with hnone | ⟨part, left, hsplit, hfound⟩
  · refine ⟨[], cs ++ [d], rfl, fun rest => ?_⟩
    rw [Pattern.optionally, hnone, Option.none_or, List.append_assoc, List.singleton_append]
  · refine ⟨part, left, hsplit, fun rest => ?_⟩
    rw [Pattern.optionally, hfound, Option.some_or]

end Pattern

/-- The secrets of the other rules end at a blank. -/
theorem stopsAt_blank : ∀ rule ∈ [bearerRule, namedSecretRule, databaseRule],
    ∀ g, Text.isBlank g = true → rule.secret.StopsAt g := by
  have hcodes : ∀ n ∈ Text.blankCodes, isTokenChar (Char.ofNat n) = false ∧
      decide (Char.ofNat n = '=') = false := by decide
  have hassigned : ∀ g, Text.isBlank g = true → assigned.StopsAt g := fun g hg =>
    Pattern.stopsAt_someOf (by simp [isSecretChar, hg])
  simp only [List.forall_mem_cons, List.not_mem_nil, false_imp_iff, implies_true, and_true]
  refine ⟨fun g hg => ?_, hassigned, hassigned⟩
  have htoken := Text.of_isBlank (P := fun c => isTokenChar c = false ∧ decide (c = '=') = false)
    hcodes hg
  exact Pattern.stopsAt_andThen (Pattern.stopsAt_someOf htoken.1) (Pattern.stopsAt_run htoken.2)

section

variable {d g : Char}

/-- Behind a mark that ends announcements, a blank that ends secrets ends everything. -/
theorem Rule.Sound.decides_bar (hsound : rule.Sound) (hd : rule.announcement.StopsAt d)
    (hg : rule.secret.StopsAt g) (previous : Option Char) (cs : List Char) :
    Decides rule (Starting g) previous (cs ++ [d]) := by
  cases hword : rule.startsWord && previous.any Text.isWordChar with
  | true => exact .inl fun tail _ => Rule.find?_eq_none hword _
  | false =>
      have hfind := Rule.find?_eq_bind hword
      rcases hd cs with hnone | ⟨lead, left, rfl, hlead⟩
      · refine .inl fun tail _ => ?_
        rw [hfind, List.append_assoc, List.singleton_append, hnone, Option.bind_none]
      have hfind' : ∀ tail, rule.find? previous (lead ++ left ++ [d] ++ tail) =
          (rule.secret (left ++ [d] ++ tail)).map fun secret => (lead, secret.1) := fun tail => by
        simp only [List.append_assoc, List.singleton_append] at hlead ⊢
        rw [hfind, hlead, Option.bind_some]
      rcases hg (left ++ [d]) with hnone | ⟨secret, behind, hsplit, hsecret⟩
      · refine .inl ?_
        rintro _ ⟨rest, rfl⟩
        rw [hfind', hnone, Option.map_none]
      · have htext : lead ++ left ++ [d] = lead ++ secret ++ behind := by
          rw [List.append_assoc, hsplit, List.append_assoc]
        refine hsound.decides ⟨[], rfl⟩ htext ?_
        rintro _ ⟨rest, rfl⟩
        rw [hfind', hsecret, Option.map_some]

/-- The second word of credentials, if there is one. -/
def credential : Pattern := .optionally (.andThen blanks assigned)

/-- Credentials end in front of the blank, or their first word does. -/
theorem settles_or_credential (hd : Text.isBlank d = false) (hg : Text.isBlank g = true)
    (left : List Char) :
    (∀ rest, authorizationRule.secret (left ++ d :: g :: rest) = none) ∨
      (∃ part behind, left ++ [d] = part ++ behind ∧
        ∀ rest, authorizationRule.secret (left ++ d :: g :: rest) =
          some (part, behind ++ g :: rest)) ∨
      ∀ rest, authorizationRule.secret (left ++ d :: g :: rest) =
        (credential (g :: rest)).map fun found => (left ++ d :: found.1, found.2) := by
  have hvisible : (Pattern.someOf isVisible).StopsAt g :=
    Pattern.stopsAt_someOf (by simp [isVisible, hg])
  have hsettles : (Pattern.andThen blanks assigned).SettlesAt d g :=
    (Pattern.stopsAt_someOf hd).andThen_settlesAt
      (Pattern.stopsAt_someOf (by simp [isSecretChar, hg]))
  have hsecret : ∀ rest, authorizationRule.secret (left ++ d :: g :: rest) =
      (Pattern.someOf isVisible (left ++ [d] ++ g :: rest)).bind fun a =>
        (credential a.2).map fun b => (a.1 ++ b.1, b.2) := fun rest => by
    rw [List.append_assoc, List.singleton_append]
    rfl
  rcases hvisible (left ++ [d]) with hnone | ⟨part, behind, hsplit, hfound⟩
  · exact .inl fun rest => by rw [hsecret, hnone, Option.bind_none]
  rcases List.eq_nil_or_concat' behind with rfl | ⟨behind, e, rfl⟩
  · -- the first word goes on up to the blank
    refine .inr (.inr fun rest => ?_)
    obtain rfl : left ++ [d] = part := by simpa using hsplit
    rw [hsecret, hfound, Option.bind_some]
    simp
  · -- the first word ends earlier, so the second one is looked for within the text
    obtain ⟨rfl, rfl⟩ : left = part ++ behind ∧ d = e := by
      rw [← List.append_assoc] at hsplit
      simpa using List.append_inj' hsplit rfl
    obtain ⟨part', behind', hsplit', hfound'⟩ := hsettles.optionally behind
    refine .inr (.inl ⟨part ++ part', behind', ?_, fun rest => ?_⟩)
    · rw [List.append_assoc, hsplit', List.append_assoc]
    · have hcredential : credential (behind ++ [d] ++ g :: rest) =
          some (part', behind' ++ g :: rest) := by
        rw [List.append_assoc, List.singleton_append]
        exact hfound' rest
      rw [hsecret, hfound, Option.bind_some, hcredential, Option.map_some]

/-- Texts in which credentials are announced that take their second word from behind the blank. -/
def GoesOn (g : Char) (previous : Option Char) (cs : List Char) : Prop :=
  ∃ lead left, lead ≠ [] ∧ cs = lead ++ left ∧ ∀ rest,
    authorizationRule.find? previous (cs ++ g :: rest) =
      (credential (g :: rest)).map fun found => (lead, left ++ found.1)

/-- In front of a blank behind a mark, credentials are found or not whatever follows, or they go on
behind the blank. -/
theorem decides_or_goesOn (hd : d ∈ bars) (hg : Text.isBlank g = true)
    (previous : Option Char) (cs : List Char) :
    Decides authorizationRule (Starting g) previous (cs ++ [d]) ∨
      GoesOn g previous (cs ++ [d]) := by
  have hsound := sound_authorizationRule
  have hword : (authorizationRule.startsWord && previous.any Text.isWordChar) = false := rfl
  have hfind := Rule.find?_eq_bind hword
  rcases stopsAt_bar authorizationRule (by simp [rules]) d hd cs with
    hnone | ⟨lead, left, rfl, hlead⟩
  · refine .inl (.inl fun tail _ => ?_)
    rw [hfind, List.append_assoc, List.singleton_append, hnone, Option.bind_none]
  have hfind' : ∀ rest, authorizationRule.find? previous (lead ++ left ++ [d] ++ g :: rest) =
      (authorizationRule.secret (left ++ d :: g :: rest)).map fun secret => (lead, secret.1) :=
    fun rest => by
      simp only [List.append_assoc, List.singleton_append] at hlead ⊢
      rw [hfind, hlead, Option.bind_some]
  -- no credentials, credentials that end in front of the blank, or a first word that goes on up to
  -- it
  rcases settles_or_credential (isPlain_bar d hd).visible hg left with
    hnone | ⟨secret, behind, hsplit, hsecret⟩ | hsecret
  · refine .inl (.inl ?_)
    rintro _ ⟨rest, rfl⟩
    rw [hfind', hnone, Option.map_none]
  · have htext : lead ++ left ++ [d] = lead ++ secret ++ behind := by
      rw [List.append_assoc, hsplit, List.append_assoc]
    refine .inl (hsound.decides ⟨[], rfl⟩ htext ?_)
    rintro _ ⟨rest, rfl⟩
    rw [hfind', hsecret, Option.map_some]
  · obtain ⟨c, hlast, -⟩ := hsound.endsInSeam _ _ _ (hlead [])
    refine .inr ⟨lead, left ++ [d], by rintro rfl; contradiction, by simp, fun rest => ?_⟩
    rw [hfind', hsecret, Option.map_map]
    congr 1
    funext found
    simp

end

/-! ## in front of a secret -/

/-- The text in front of a secret: blanks behind a mark, and then a link to the secret. -/
def IsFront (link front : List Char) : Prop :=
  ∃ body d gap, front = body ++ d :: gap ++ link ∧ d ∈ bars ∧ gap ≠ [] ∧ Text.Blanks gap

/-- A front is not empty. -/
theorem IsFront.ne_nil {link front : List Char} (h : IsFront link front) : front ≠ [] := by
  obtain ⟨body, d, gap, rfl, -⟩ := h
  simp

/-- A front stays one with more before it. -/
theorem IsFront.append {link front : List Char} (h : IsFront link front) (before : List Char) :
    IsFront link (before ++ front) := by
  obtain ⟨body, d, gap, rfl, hd, hne, hgap⟩ := h
  exact ⟨before ++ body, d, gap, by simp, hd, hne, hgap⟩

/-- The key of a secret in quotes, and the colon behind it. -/
def label (key : List Char) : List Char := '"' :: key ++ ['"', ':']

/-- The characters of a name are written as they are. -/
theorem escapeChar_of_ascii {c : Char} (h : c.isAlphanum = true ∨ c = '_') :
    escapeChar c = [c] := by
  have hall : ∀ n < 128, ((Char.ofNat n).isAlphanum = true ∨ Char.ofNat n = '_') →
      escapeChar (Char.ofNat n) = [Char.ofNat n] := by
    decide
  exact Text.of_toNat_lt (P := fun c => (c.isAlphanum = true ∨ c = '_') → escapeChar c = [c]) hall
    (toNat_lt_of_ascii h) h

/-- A label is how the key of an entry is written. -/
theorem quoted_append_colon {key : String} (hkey : IsSecretName key.toList) :
    quoted key ++ ": ".toList = label key.toList ++ [' '] := by
  have hescaped : key.toList.flatMap escapeChar = key.toList := by
    rw [List.flatMap_congr fun c hc => escapeChar_of_ascii (hkey.ascii c hc),
      List.flatMap_singleton' key.toList]
  have hcolon : ": ".toList = [':', ' '] := rfl
  rw [quoted, hescaped, hcolon, label]
  simp

/-- A rule writes one text for another in front of all words in quotes, and deals with the words and
what follows on their own. -/
def Carries (rule : Rule) (mask front front' : List Char) : Prop :=
  ∀ word tail, IsShut word → Fenced tail →
    scrub rule mask 0 none (front ++ (word ++ tail)) =
      front' ++ (scrub rule mask 0 none word ++ scrub rule mask 0 none tail)

/-- What a rule writes for a fenced front is fenced. -/
theorem Carries.fenced (hsound : rule.Sound) {front front' : List Char}
    (h : Carries rule mask front front') (hne : front ≠ []) (hne' : front' ≠ [])
    (hfenced : Fenced front) : Fenced front' := by
  have hcarried := h ['"'] [] isShut_quote fenced_nil
  cases front with
  | nil => contradiction
  | cons c front =>
      cases front' with
      | nil => contradiction
      | cons c' front' =>
          have hcalm : Calm (c :: (front ++ (['"'] ++ []))) :=
            calm_of_head? fun d hd => isSeam_of_isSecretChar (hfenced d hd)
          rw [List.cons_append, scrub_kept (hsound.find?_calm hcalm)] at hcarried
          rw [← (List.cons.inj hcarried).1]
          exact hfenced

/-- Blanks are left alone. -/
theorem Rule.Sound.rewrites_blanks (hsound : rule.Sound) {gap : List Char}
    (hgap : Text.Blanks gap) : Rewrites rule mask gap gap := by
  have hcodes : ∀ n ∈ Text.blankCodes, foldCase (Char.ofNat n) ∉ telltales := by decide
  exact hsound.rewrites fun c hc =>
    Text.of_isBlank (P := fun c => foldCase c ∉ telltales) hcodes (hgap c hc)

/-- Nothing is announced in a key in quotes. -/
theorem Rule.Sound.rewrites_label (hsound : rule.Sound) {key : List Char}
    (hkey : IsSecretName key) : Rewrites rule mask (label key) (label key) := by
  intro rest hrest
  have hopen : ∀ cs, Calm ('"' :: cs) := calm_cons_of_not (by decide)
  have hcolon : Rewrites rule mask [':'] [':'] := hsound.rewrites (by decide)
  have htext : label key ++ rest = '"' :: (key ++ '"' :: ([':'] ++ rest)) := by simp [label]
  rw [htext]
  refine ⟨hopen _, fun previous => ?_⟩
  rw [scrub_kept (hsound.find?_calm (hopen _)),
    hsound.scrub_name hsound.stopsAtQuote hkey.isNameChar, (hcolon rest hrest).2]
  simp [label]

/-- If a rule passes over the text up to the mark, the rest of the front stays as it is. -/
theorem exists_carries_of_passes (hrule : rule ∈ rules) (hmask : IsMask mask)
    {link body gap out : List Char} {d g : Char} (hlink : Rewrites rule mask link link)
    (hd : d ∈ bars) (hgap : Text.Blanks (g :: gap))
    (hpasses : Passes rule mask (Starting g) none (body ++ [d]) out) :
    ∃ front', IsFront link front' ∧ Carries rule mask (body ++ d :: g :: gap ++ link) front' := by
  have hsound := sound_of_mem_rules rule hrule
  obtain ⟨e, he, hlast⟩ : ∃ e ∈ bars, out.getLast? = some e := by
    rcases hpasses.getLast?_eq hmask.ne_nil with hsame | hmasked
    · exact ⟨d, hd, hsame.trans (by simp)⟩
    · rw [hmasked]
      exact hmask.last
  obtain ⟨out, rfl⟩ := List.getLast?_eq_some_iff.mp hlast
  refine ⟨out ++ e :: g :: gap ++ link, ⟨out, e, g :: gap, rfl, he, by simp, hgap⟩, ?_⟩
  intro word tail hword htail
  have hrest := ((hsound.rewrites_blanks hgap).append hlink) (word ++ tail) (hword.calm tail)
  have htext : body ++ d :: g :: gap ++ link ++ (word ++ tail) =
      body ++ [d] ++ (g :: gap ++ link ++ (word ++ tail)) := by simp
  have hstarts : Starting g (g :: gap ++ link ++ (word ++ tail)) :=
    ⟨gap ++ link ++ (word ++ tail), by simp⟩
  rw [htext, hpasses.scrub_eq hstarts, hrest.2, scrub_shut hrule hword htail]
  simp

/-- The rules whose secrets end at blanks keep the front of a secret up to its last mark. -/
theorem exists_carries (hrule : rule ∈ rules) (hmask : IsMask mask)
    (hstops : ∀ g, Text.isBlank g = true → rule.secret.StopsAt g) {link front : List Char}
    (hlink : Rewrites rule mask link link) (hfront : IsFront link front) :
    ∃ front', IsFront link front' ∧ Carries rule mask front front' := by
  obtain ⟨body, d, gap, rfl, hd, hne, hgap⟩ := hfront
  cases gap with
  | nil => contradiction
  | cons g gap =>
      have hg : Text.isBlank g = true := hgap g List.mem_cons_self
      have hsound := sound_of_mem_rules rule hrule
      obtain ⟨out, hpasses⟩ := exists_passes_of_last mask
        (hsound.decides_bar (stopsAt_bar rule hrule d hd) (hstops g hg)) none body
      exact exists_carries_of_passes hrule hmask hlink hd hgap hpasses

/-- A label behind blanks can be the second word of credentials. -/
theorem credential_label {key gap : List Char} (hkey : IsSecretName key) (hne : gap ≠ [])
    (hgap : Text.Blanks gap) (rest : List Char) :
    credential (gap ++ label key ++ ' ' :: rest) = some (gap ++ label key, ' ' :: rest) := by
  have hchars : ∀ c ∈ label key, isSecretChar c = true := by
    have hmarks : ∀ c ∈ ['"', ':'], isSecretChar c = true := by decide
    rw [label, List.cons_append, List.forall_mem_cons, List.forall_mem_append]
    exact ⟨by decide, fun c hc => (isKeyChar_of_ascii (hkey.ascii c hc)).secret, hmarks⟩
  have hblanks : blanks (gap ++ (label key ++ ' ' :: rest)) =
      some (gap, label key ++ ' ' :: rest) := by
    refine Pattern.someOf_append hne hgap fun c hc => ?_
    obtain rfl : '"' = c := Option.some.inj hc
    decide
  have hassigned : assigned (label key ++ ' ' :: rest) = some (label key, ' ' :: rest) :=
    assigned_fenced (by simp [label]) hchars (fenced_cons (by decide) rest)
  rw [credential, Pattern.optionally, Pattern.andThen, List.append_assoc, hblanks,
    Option.bind_some, hassigned, Option.map_some, Option.some_or]

/-- The links between the blanks in front of a secret and the secret: its key, unless the rule for
headers has replaced that. -/
def links (key : List Char) : List (List Char) := [[], label key ++ [' ']]

/-- A link to a secret is left alone. -/
theorem Rule.Sound.rewrites_link (hsound : rule.Sound) {key : List Char}
    (hkey : IsSecretName key) : ∀ link ∈ links key, Rewrites rule mask link link := by
  have hspace : Rewrites rule mask [' '] [' '] := hsound.rewrites (by decide)
  simp only [links, List.forall_mem_cons, List.not_mem_nil, false_imp_iff, implies_true, and_true]
  exact ⟨hsound.rewrites (by simp), (hsound.rewrites_label hkey).append hspace⟩

/-- Where credentials go on, the mask takes the place of the key, and a blank is left in front of
the secret. -/
theorem exists_carries_of_goesOn (hmask : IsMask mask) {key start back out gap : List Char}
    {g : Char} (hkey : IsSecretName key) (hgap : Text.Blanks (g :: gap))
    (hpasses : Passes authorizationRule mask (fun tail => ∃ t, Starting g t ∧ tail = back ++ t)
      none start out)
    (hback : GoesOn g (start.getLast?.or none) back) :
    ∃ front', IsFront [] front' ∧ Carries authorizationRule mask
      (start ++ back ++ g :: gap ++ (label key ++ [' '])) front' := by
  have hsound := sound_authorizationRule
  obtain ⟨e, he, hlast⟩ := hmask.last
  obtain ⟨m, hm⟩ := List.getLast?_eq_some_iff.mp hlast
  obtain ⟨lead, left, hlead, rfl, hfind⟩ := hback
  refine ⟨out ++ lead ++ mask ++ [' '], ⟨out ++ lead ++ m, e, [' '], by simp [hm], he, by simp,
    Text.blanks_space⟩, ?_⟩
  intro word tail hword htail
  have hfound := hfind (gap ++ label key ++ ' ' :: (word ++ tail))
  have hlabel := credential_label hkey (by simp) hgap (word ++ tail)
  simp only [List.cons_append] at hlabel
  rw [hlabel, Option.map_some] at hfound
  have htext : start ++ (lead ++ left) ++ g :: gap ++ (label key ++ [' ']) ++ (word ++ tail) =
      start ++ (lead ++ left ++ g :: (gap ++ label key ++ ' ' :: (word ++ tail))) := by simp
  have hsecret : lead ++ left ++ g :: (gap ++ label key ++ ' ' :: (word ++ tail)) =
      lead ++ (left ++ g :: (gap ++ label key)) ++ ' ' :: (word ++ tail) := by simp
  have hspace : Rewrites authorizationRule mask [' '] [' '] := hsound.rewrites (by decide)
  have hbehind := (hspace (word ++ tail) (hword.calm tail)).2
  rw [List.singleton_append] at hbehind
  rw [htext, hpasses.scrub_eq ⟨_, ⟨_, rfl⟩, rfl⟩]
  rw [hsecret] at hfound ⊢
  rw [scrub_replaced hlead hfound, hbehind, scrub_shut (by simp [rules]) hword htail]
  simp

/-- The rule for headers keeps the key of a secret or replaces it with the mask, but it leaves the
secret. -/
theorem exists_carries_header (hmask : IsMask mask) {key front : List Char}
    (hkey : IsSecretName key) (hfront : IsFront (label key ++ [' ']) front) :
    ∃ front', (∃ link ∈ links key, IsFront link front') ∧
      Carries authorizationRule mask front front' := by
  obtain ⟨body, d, gap, rfl, hd, hne, hgap⟩ := hfront
  cases gap with
  | nil => contradiction
  | cons g gap =>
      rcases passes_or_of_last mask (GoesOn g) (decides_or_goesOn hd (hgap g List.mem_cons_self))
        none body with ⟨out, hpasses⟩ | ⟨start, back, out, hsplit, hpasses, hback⟩
      · have hlink : label key ++ [' '] ∈ links key := by simp [links]
        obtain ⟨front', hfront', hcarries⟩ := exists_carries_of_passes (by simp [rules]) hmask
          (sound_authorizationRule.rewrites_link hkey _ hlink) hd hgap hpasses
        exact ⟨front', ⟨_, hlink, hfront'⟩, hcarries⟩
      · obtain ⟨front', hfront', hcarries⟩ :=
          exists_carries_of_goesOn hmask hkey hgap hpasses hback
        have htext : body ++ d :: g :: gap ++ (label key ++ [' ']) =
            start ++ back ++ g :: gap ++ (label key ++ [' ']) := by
          simpa using congrArg (· ++ g :: (gap ++ (label key ++ [' ']))) hsplit
        exact ⟨front', ⟨[], by simp [links], hfront'⟩, htext ▸ hcarries⟩

/-! ## a text around a secret -/

/-- A text with a secret behind each of its fronts. -/
def fill (fronts : List (List Char)) (last word : List Char) : List Char :=
  fronts.foldr (fun front text => front ++ (word ++ text)) last

/-- How long a text is with a word in all its places. -/
theorem length_fill (fronts : List (List Char)) (last word : List Char) :
    (fill fronts last word).length =
      (fill fronts last []).length + fronts.length * word.length := by
  induction fronts with
  | nil => simp [fill]
  | cons front fronts ih =>
      simp only [fill, List.foldr_cons, List.length_append, List.length_cons,
        List.length_nil] at ih ⊢
      rw [ih, Nat.succ_mul]
      omega

/-- A text shows the secret that is filled in. -/
theorem fill_inj {fronts : List (List Char)} (hne : fronts ≠ []) (last : List Char)
    {word other : List Char} : fill fronts last word = fill fronts last other ↔ word = other := by
  refine ⟨fun h => ?_, fun h => by rw [h]⟩
  have hlength := congrArg List.length h
  rw [length_fill, length_fill fronts last other, Nat.add_left_cancel_iff] at hlength
  have hsame : word.length = other.length :=
    Nat.eq_of_mul_eq_mul_left (List.length_pos_iff.mpr hne) hlength
  cases fronts with
  | nil => contradiction
  | cons front fronts =>
      exact (List.append_inj (List.append_cancel_left h) hsame).1

/-- A front that no secret goes on into. -/
structure IsSlot (links : List (List Char)) (front : List Char) : Prop where
  fenced : Fenced front
  front : ∃ link ∈ links, IsFront link front

/-- Such a text is fenced, since its fronts are. -/
theorem fenced_fill {links fronts : List (List Char)} {last word : List Char}
    (hfronts : ∀ front ∈ fronts, IsSlot links front) (hlast : Fenced last) :
    Fenced (fill fronts last word) := by
  cases fronts with
  | nil => exact hlast
  | cons front fronts =>
      obtain ⟨hfenced, link, -, hfront⟩ := hfronts front List.mem_cons_self
      cases front with
      | nil => exact absurd rfl hfront.ne_nil
      | cons c front => exact hfenced

/-- What a rule makes of a text around a secret is a text around what it makes of the secret. -/
theorem scrub_fill (hrule : rule ∈ rules) {before after : List (List Char)}
    (hstep : ∀ link ∈ before, ∀ front, IsFront link front →
      ∃ front', (∃ link' ∈ after, IsFront link' front') ∧ Carries rule mask front front')
    {fronts : List (List Char)} {last : List Char}
    (hfronts : ∀ front ∈ fronts, IsSlot before front) (hlast : Fenced last) :
    ∃ fronts' last', fronts'.length = fronts.length ∧ (∀ front ∈ fronts', IsSlot after front) ∧
      Fenced last' ∧ ∀ word, IsShut word →
        scrub rule mask 0 none (fill fronts last word) =
          fill fronts' last' (scrub rule mask 0 none word) := by
  have hsound := sound_of_mem_rules rule hrule
  induction fronts with
  | nil => exact ⟨[], scrub rule mask 0 none last, rfl, by simp, fenced_scrub hsound hlast,
      fun word _ => rfl⟩
  | cons front fronts ih =>
      obtain ⟨hslot, hslots⟩ := List.forall_mem_cons.mp hfronts
      obtain ⟨fronts', last', hlength, hslots', hlast', hfill⟩ := ih hslots
      obtain ⟨hfenced, link, hlink, hfront⟩ := hslot
      obtain ⟨front', ⟨link', hlink', hfront'⟩, hcarries⟩ := hstep link hlink front hfront
      have hfenced' := hcarries.fenced hsound hfront.ne_nil hfront'.ne_nil hfenced
      refine ⟨front' :: fronts', last', by simp [hlength],
        List.forall_mem_cons.mpr ⟨⟨hfenced', link', hlink', hfront'⟩, hslots'⟩, hlast', ?_⟩
      intro word hword
      have hrest : Fenced (fill fronts last word) := fenced_fill hslots hlast
      simp only [fill, List.foldr_cons] at hfill hrest ⊢
      rw [hcarries word _ hword hrest, hfill word hword]

/-- Behind the rule for headers, the others leave the secret where it is. -/
theorem scrubAll_fill (hmask : IsMask mask) {key : List Char} (hkey : IsSecretName key)
    {others : List Rule} (hothers : others ⊆ [bearerRule, namedSecretRule, databaseRule])
    {fronts : List (List Char)} {last : List Char}
    (hfronts : ∀ front ∈ fronts, IsSlot (links key) front) (hlast : Fenced last) :
    ∃ fronts' last', fronts'.length = fronts.length ∧ ∀ word, IsShut word →
      scrubAll mask others (fill fronts last word) =
        fill fronts' last' (scrubAll mask others word) := by
  induction others generalizing fronts last with
  | nil => exact ⟨fronts, last, rfl, fun word _ => rfl⟩
  | cons rule others ih =>
      obtain ⟨hmem, hothers⟩ := List.cons_subset.mp hothers
      have hrule : rule ∈ rules := List.mem_cons_of_mem _ hmem
      have hsound := sound_of_mem_rules rule hrule
      have hstep : ∀ link ∈ links key, ∀ front, IsFront link front →
          ∃ front', (∃ link' ∈ links key, IsFront link' front') ∧
            Carries rule mask front front' := by
        intro link hlink front hfront
        obtain ⟨front', hfront', hcarries⟩ := exists_carries hrule hmask
          (stopsAt_blank rule hmem) (hsound.rewrites_link hkey link hlink) hfront
        exact ⟨front', ⟨link, hlink, hfront'⟩, hcarries⟩
      obtain ⟨fronts', last', hlength, hslots, hlast', hfill⟩ :=
        scrub_fill hrule hstep hfronts hlast
      obtain ⟨fronts'', last'', hlength', hfill'⟩ := ih hothers hslots hlast'
      refine ⟨fronts'', last'', hlength'.trans hlength, fun word hword => ?_⟩
      have hshut := isShut_scrub hrule hmask hword
      show scrubAll mask others (scrub rule mask 0 none (fill fronts last word)) = _
      rw [hfill word hword, hfill' _ hshut]
      rfl

/-- A brace in front of a fence is kept. -/
theorem scrubAll_brace {others : List Rule} (hsound : ∀ rule ∈ others, rule.Sound)
    {cs : List Char} (h : Fenced cs) :
    scrubAll mask others ('{' :: cs) = '{' :: scrubAll mask others cs := by
  induction others generalizing cs with
  | nil => rfl
  | cons rule others ih =>
      obtain ⟨hrule, hothers⟩ := List.forall_mem_cons.mp hsound
      have hbrace : scrub rule mask 0 none ('{' :: cs) = '{' :: scrub rule mask 0 none cs :=
        @Rule.Sound.scrub_append_calm rule mask hrule ['{'] cs (by decide) h.calm none
      show scrubAll mask others (scrub rule mask 0 none ('{' :: cs)) = _
      rw [hbrace]
      exact ih hothers (fenced_scrub hrule h)

/-- The opening brace of a data text is kept, and the rest is redacted on its own. -/
theorem redactWith_brace {cs : List Char} (h : Fenced cs) :
    redactWith Redaction.mask.toList ('{' :: cs) = '{' :: redactWith Redaction.mask.toList cs :=
  scrubAll_brace sound_of_mem_rules h

/-- **A secret behind its key in quotes is redacted on its own.** Whatever stands around it, the
redacted text is one around the redacted secret, and the same one for all secrets. -/
theorem redactWith_fill {key : List Char} (hkey : IsSecretName key) {fronts : List (List Char)}
    {last : List Char} (hfronts : ∀ front ∈ fronts, IsSlot [label key ++ [' ']] front)
    (hlast : Fenced last) :
    ∃ fronts' last', fronts'.length = fronts.length ∧ ∀ word, IsShut word →
      redactWith Redaction.mask.toList (fill fronts last word) =
        fill fronts' last' (redactWith Redaction.mask.toList word) := by
  have hrule : authorizationRule ∈ rules := by simp [rules]
  have hstep : ∀ link ∈ [label key ++ [' ']], ∀ front, IsFront link front →
      ∃ front', (∃ link' ∈ links key, IsFront link' front') ∧
        Carries authorizationRule Redaction.mask.toList front front' := by
    intro link hlink front hfront
    obtain rfl := List.mem_singleton.mp hlink
    exact exists_carries_header isMask_mask hkey hfront
  obtain ⟨fronts', last', hlength, hslots, hlast', hfill⟩ := scrub_fill hrule hstep hfronts hlast
  obtain ⟨fronts'', last'', hlength', hfill'⟩ := scrubAll_fill isMask_mask hkey
    (List.Subset.refl _) hslots hlast'
  refine ⟨fronts'', last'', hlength'.trans hlength, fun word hword => ?_⟩
  have hshut := isShut_scrub hrule isMask_mask hword
  show scrubAll _ _ (scrub authorizationRule _ 0 none (fill fronts last word)) = _
  rw [hfill word hword, hfill' _ hshut]
  rfl

end Runbook.Redaction

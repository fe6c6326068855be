import Runbook.Proofs.Redaction.Word

/-!
# Runbook.Proofs.Redaction.Assignment

An assignment to the name of a secret, somewhere in a text. The rule for such assignments comes
third, so what it finds depends on the two rules before it. The rule for headers replaces the whole
assignment or leaves it alone. The rule for tokens may take the name and the equals sign for a token
(`TakesToken`), and then the secret may stay in the text. Where that does not happen, the secret is
replaced, whatever it is; what stands behind it is redacted in the same way for two secrets that
announce the same (`EndAlike`). So the redacted text does not tell them apart (`redact_assignment`).
-/

namespace Runbook.Redaction

variable {rule : Rule} {mask : List Char}

/-! ## names and secrets -/

/-- The name of a secret: letters, digits and underscores of ASCII, with one of the words for
secrets at the end, in any case. -/
structure IsSecretName (key : List Char) : Prop where
  ascii : ∀ c ∈ key, c.isAlphanum = true ∨ c = '_'
  suffix : ∃ w ∈ secretWords, w <:+ key.map Char.toLower

/-- A secret: some characters, and no blank, comma or semicolon among them. -/
structure IsSecret (secret : List Char) : Prop where
  ne_nil : secret ≠ []
  chars : ∀ c ∈ secret, isSecretChar c = true

/-- What the patterns make of the characters of a name. -/
structure IsKeyChar (c : Char) : Prop where
  name : isNameChar c = true
  token : isTokenChar c = true
  secret : isSecretChar c = true
  fold : foldCase c = c.toLower

instance (c : Char) : Decidable (IsKeyChar c) :=
  decidable_of_iff (isNameChar c = true ∧ isTokenChar c = true ∧ isSecretChar c = true ∧
    foldCase c = c.toLower) ⟨fun ⟨a, b, c, d⟩ => ⟨a, b, c, d⟩, fun ⟨a, b, c, d⟩ => ⟨a, b, c, d⟩⟩

/-- Letters, digits and the underscore have small codes. -/
theorem toNat_lt_of_ascii {c : Char} (h : c.isAlphanum = true ∨ c = '_') : c.toNat < 128 := by
  rcases h with h | rfl
  · have hc : c.toNat = c.val.toNat := rfl
    have hn : c.isAlphanum =
        (decide (c.val ≥ 65 ∧ c.val ≤ 90) || (c.val ≥ 97 && c.val ≤ 122) ||
          (c.val ≥ 48 && c.val ≤ 57)) := rfl
    simp only [hn, Bool.or_eq_true, Bool.and_eq_true, decide_eq_true_eq, ge_iff_le,
      UInt32.le_iff_toNat_le, UInt32.reduceToNat] at h
    omega
  · decide

/-- So the patterns make the same of all of them. -/
theorem isKeyChar_of_ascii {c : Char} (h : c.isAlphanum = true ∨ c = '_') : IsKeyChar c := by
  have hall : ∀ n < 128, ((Char.ofNat n).isAlphanum = true ∨ Char.ofNat n = '_') →
      IsKeyChar (Char.ofNat n) := by
    decide
  exact Text.of_toNat_lt (P := fun c => (c.isAlphanum = true ∨ c = '_') → IsKeyChar c) hall
    (toNat_lt_of_ascii h) h

namespace IsSecretName

variable {key : List Char}

/-- The name of a secret consists of name characters. -/
theorem isNameChar (h : IsSecretName key) : ∀ c ∈ key, isNameChar c = true := fun c hc =>
  (isKeyChar_of_ascii (h.ascii c hc)).name

/-- It is not empty. -/
theorem ne_nil (h : IsSecretName key) : key ≠ [] := by
  rintro rfl
  obtain ⟨w, hw, hsuffix⟩ := h.suffix
  obtain rfl : w = [] := by simpa using hsuffix
  exact absurd hw (by decide)

/-- A text that starts with it starts with a name. -/
theorem atName (h : IsSecretName key) (rest : List Char) : AtName (key ++ rest) := by
  cases key with
  | nil => exact absurd rfl h.ne_nil
  | cons c key => exact ⟨c, key ++ rest, rfl, h.isNameChar c List.mem_cons_self⟩

/-- The rule finds one of its words at the end of the name. -/
theorem any_secretWords (h : IsSecretName key) :
    (secretWords.any fun w => w.isSuffixOf (key.map foldCase)) = true := by
  obtain ⟨w, hw, hsuffix⟩ := h.suffix
  have hfold : key.map foldCase = key.map Char.toLower := List.map_congr_left fun c hc =>
    (isKeyChar_of_ascii (h.ascii c hc)).fold
  exact List.any_eq_true.mpr ⟨w, hw, by rwa [hfold, List.isSuffixOf_iff_suffix]⟩

/-- The name with a secret assigned to it is a word. -/
theorem isWord (h : IsSecretName key) {secret : List Char} (hsecret : IsSecret secret) :
    IsWord (key ++ '=' :: secret) where
  atName := h.atName _
  secret c hc := by
    rcases List.mem_append.mp hc with hc | hc
    · exact (isKeyChar_of_ascii (h.ascii c hc)).secret
    · rcases List.mem_cons.mp hc with rfl | hc
      · decide
      · exact hsecret.chars c hc

end IsSecretName

/-! ## the rules on the name -/

/-- In a name in front of a mark that ends announcements, nothing is announced. -/
theorem Rule.Sound.find?_name (hsound : rule.Sound) {mark : Char}
    (hstops : rule.announcement.StopsAt mark) {cs : List Char}
    (hcs : ∀ c ∈ cs, isNameChar c = true) (previous : Option Char) (rest : List Char) :
    rule.find? previous (cs ++ mark :: rest) = none := by
  have hnone : rule.announcement (cs ++ mark :: rest) = none := by
    rcases hstops cs with hnone | ⟨part, left, rfl, hfound⟩
    · exact hnone rest
    · obtain ⟨c, hlast, hc⟩ := hsound.endsInSeam _ _ _ (hfound rest)
      have hmem := hcs c (List.mem_append_left _ (List.mem_of_getLast? hlast))
      rw [isNameChar_of_isSeam hc] at hmem
      contradiction
  simp [Rule.find?, hnone]

/-- A name in front of a mark that no announcement goes over is left alone. -/
theorem Rule.Sound.scrub_name (hsound : rule.Sound) {mark : Char}
    (hstops : rule.announcement.StopsAt mark) {cs : List Char}
    (hcs : ∀ c ∈ cs, isNameChar c = true) (previous : Option Char) (rest : List Char) :
    scrub rule mask 0 previous (cs ++ mark :: rest) =
      cs ++ mark :: scrub rule mask 0 (some mark) rest := by
  induction cs generalizing previous with
  | nil => exact scrub_kept (hsound.find?_name hstops hcs previous rest)
  | cons c cs ih =>
      have hnone := hsound.find?_name hstops hcs previous rest
      rw [List.cons_append] at hnone ⊢
      rw [scrub_kept hnone, ih fun d hd => hcs d (List.mem_cons_of_mem _ hd), List.cons_append]

/-- The rule for assignments replaces the secret. -/
theorem scrub_namedSecret {key secret tail : List Char} (hkey : IsSecretName key)
    (hsecret : IsSecret secret) (htail : Gapped tail) :
    scrub namedSecretRule mask 0 (some ' ') (key ++ '=' :: (secret ++ tail)) =
      key ++ '=' :: (mask ++ scrub namedSecretRule mask 0 none tail) := by
  have hequals : isNameChar '=' = false := by decide
  have htake : (key ++ '=' :: (secret ++ tail)).takeWhile isNameChar = key := by
    rw [List.takeWhile_append_of_pos hkey.isNameChar,
      List.takeWhile_cons_of_neg (by simp [hequals]), List.append_nil]
  have hdrop : (key ++ '=' :: (secret ++ tail)).dropWhile isNameChar = '=' :: (secret ++ tail) := by
    rw [List.dropWhile_append_of_pos hkey.isNameChar,
      List.dropWhile_cons_of_neg (by simp [hequals])]
  have hname : Pattern.nameEndingIn secretWords (key ++ '=' :: (secret ++ tail)) =
      some (key, '=' :: (secret ++ tail)) := by
    simp only [Pattern.nameEndingIn, htake, hdrop, hkey.any_secretWords, if_true]
  have hsecretBlank : (secret ++ tail).takeWhile Text.isBlank = [] ∧
      (secret ++ tail).dropWhile Text.isBlank = secret ++ tail := by
    cases secret with
    | nil => exact absurd rfl hsecret.ne_nil
    | cons c secret =>
        have hc := isVisible_of_isSecretChar (hsecret.chars c List.mem_cons_self)
        simp only [isVisible, Bool.not_eq_true'] at hc
        simp [hc]
  have hassign : assignment ('=' :: (secret ++ tail)) = some (['='], secret ++ tail) := by
    have hblank : Text.isBlank '=' = false := by decide
    simp [assignment, Pattern.andThen, Pattern.run, Pattern.one, hblank, hsecretBlank]
  have hfind : namedSecretRule.find? (some ' ') (key ++ '=' :: (secret ++ tail)) =
      some (key ++ ['='], secret) := by
    have hspace : Text.isWordChar ' ' = false := by decide
    simp only [namedSecretRule, Rule.find?, Option.any_some, hspace, Bool.and_false,
      Bool.false_eq_true, if_false, Pattern.andThen, hname, Option.bind_some, hassign,
      Option.map_some, Pattern.assigned_gapped hsecret.ne_nil hsecret.chars htail]
  have htext : key ++ '=' :: (secret ++ tail) = key ++ ['='] ++ secret ++ tail := by simp
  rw [htext] at hfind ⊢
  rw [scrub_replaced (by simp) hfind, sound_namedSecretRule.scrub_calm htail.calm]
  simp

/-! ## the end of a secret -/

/-- Does the text end with a word in any case? If the word must be `bare`, no word character may
stand in front of it. -/
def endsIn (word : List Char) (bare : Bool) (previous : Option Char) : List Char → Bool
  | [] => false
  | c :: cs =>
    ((c :: cs).map foldCase = word && !(bare && previous.any Text.isWordChar)) ||
      endsIn word bare (some c) cs

/-- A text that is shorter than the word does not end with it. -/
theorem endsIn_of_length_lt {word cs : List Char} (h : cs.length < word.length) (bare : Bool)
    (previous : Option Char) : endsIn word bare previous cs = false := by
  induction cs generalizing previous with
  | nil => rfl
  | cons c cs ih =>
      have hne : (c :: cs).map foldCase ≠ word := by
        rintro rfl
        simp at h
      rw [endsIn, ih (by simp at h; omega)]
      simp only [hne, decide_false, Bool.false_and, Bool.or_false]

/-- A rule whose announcement is a word with blanks behind it. -/
structure Rule.Heralds (rule : Rule) (word : List Char) : Prop where
  announcement : rule.announcement = .andThen (.word word) blanks
  solid : ∀ c, Text.isBlank c = true → foldCase c ∉ word
  ne_nil : word ≠ []

/-- The blanks at the front of a text and the secret behind them, with what follows it. -/
def spaced? (rule : Rule) (tail : List Char) : Option (List Char × List Char × List Char) :=
  (blanks tail).bind fun lead => (rule.secret lead.2).map fun secret => (lead.1, secret)

/-- What a rule writes for the text behind its word. -/
def follow (rule : Rule) (mask tail : List Char) : List Char :=
  match spaced? rule tail with
  | none => scrub rule mask 0 none tail
  | some (lead, secret, rest) => lead ++ mask ++ scrub rule mask 0 (lead ++ secret).getLast? rest

variable {word cs tail : List Char} {previous : Option Char}

theorem blanks_cons_of_not {c : Char} (hc : Text.isBlank c = false) (rest : List Char) :
    blanks (c :: rest) = none := by
  simp [blanks, Pattern.someOf, hc]

/-- The word is announced if the characters in front of the blank are the whole word. -/
theorem announcement_gapped (hheralds : rule.Heralds word) (hcs : ∀ c ∈ cs, Text.isBlank c = false)
    (htail : Gapped tail) :
    rule.announcement (cs ++ tail) =
      if cs.map foldCase = word then (blanks tail).map fun lead => (cs ++ lead.1, lead.2)
      else none := by
  rw [hheralds.announcement, Pattern.andThen, Pattern.word]
  rcases Nat.lt_trichotomy cs.length word.length with hlt | heq | hgt
  · -- a blank would be among the characters of the word
    have hne : cs.map foldCase ≠ word := by
      rintro rfl
      simp at hlt
    have hnot : ((cs ++ tail).take word.length).map foldCase ≠ word := by
      intro hword
      cases tail with
      | nil =>
          rw [List.append_nil, List.take_of_length_le (by omega)] at hword
          exact hne hword
      | cons d tail =>
          obtain ⟨n, hn⟩ : ∃ n, word.length - cs.length = n + 1 :=
            ⟨word.length - cs.length - 1, by omega⟩
          refine hheralds.solid d (htail d rfl) ?_
          rw [← hword]
          refine List.mem_map_of_mem ?_
          rw [List.take_append, hn]
          simp
    rw [if_neg hnot, if_neg hne, Option.bind_none]
  · rw [List.take_left' heq, List.drop_left' heq]
    split
    · rfl
    · rfl
  · -- more characters than the word has: behind it there is no blank
    have hne : cs.map foldCase ≠ word := by
      rintro rfl
      simp at hgt
    rw [if_neg hne]
    split
    · obtain ⟨c, rest, hdrop⟩ : ∃ c rest, cs.drop word.length = c :: rest :=
        List.exists_cons_of_length_pos (by rw [List.length_drop]; omega)
      have hmem : c ∈ cs.drop word.length := hdrop ▸ List.mem_cons_self
      have hc : Text.isBlank c = false := hcs c (List.mem_of_mem_drop hmem)
      rw [Option.bind_some, List.drop_append_of_le_length (by omega), hdrop, List.cons_append,
        blanks_cons_of_not hc, Option.map_none]
    · rfl

/-- Nothing is announced in characters that are no blanks, but by the whole word in front of a
blank. -/
theorem find?_gapped (hheralds : rule.Heralds word) (hcs : ∀ c ∈ cs, Text.isBlank c = false)
    (htail : Gapped tail) (previous : Option Char) :
    rule.find? previous (cs ++ tail) =
      if cs.map foldCase = word && !(rule.startsWord && previous.any Text.isWordChar) then
        (spaced? rule tail).map fun found => (cs ++ found.1, found.2.1)
      else none := by
  rw [Rule.find?, announcement_gapped hheralds hcs htail]
  cases rule.startsWord && previous.any Text.isWordChar with
  | true => simp
  | false =>
      by_cases hword : cs.map foldCase = word
      · cases hblanks : blanks tail with
        | none => simp [hword, spaced?, hblanks]
        | some lead =>
            cases hsecret : rule.secret lead.2 with
            | none => simp [hword, spaced?, hblanks, hsecret]
            | some secret => simp [hword, spaced?, hblanks, hsecret]
      · simp [hword]

/-- Blanks and a secret that are found stand at the front of the text. -/
theorem eq_of_spaced? (hsound : rule.Sound) {lead secret rest : List Char}
    (h : spaced? rule tail = some (lead, secret, rest)) :
    lead ≠ [] ∧ tail = lead ++ secret ++ rest := by
  simp only [spaced?, Option.bind_eq_some_iff, Option.map_eq_some_iff] at h
  obtain ⟨⟨lead', left⟩, hblanks, ⟨secret', rest'⟩, hsecret, hpair⟩ := h
  obtain ⟨rfl, rfl, rfl⟩ : lead' = lead ∧ secret' = secret ∧ rest' = rest := by simpa using hpair
  constructor
  · obtain ⟨c, hlast, -⟩ := endsInSeam_blanks tail lead' left hblanks
    rintro rfl
    contradiction
  · rw [splits_blanks tail lead' left hblanks, hsound.splits_secret left secret' rest' hsecret,
      List.append_assoc]

/-- A text that does not end in the word of the rule is kept up to a blank. -/
theorem scrub_of_not_endsIn (hsound : rule.Sound) (hheralds : rule.Heralds word)
    (hcs : ∀ c ∈ cs, Text.isBlank c = false) (htail : Gapped tail)
    (hends : endsIn word rule.startsWord previous cs = false) :
    scrub rule mask 0 previous (cs ++ tail) = cs ++ scrub rule mask 0 none tail := by
  induction cs generalizing previous with
  | nil => exact hsound.scrub_calm htail.calm previous
  | cons c cs ih =>
      obtain ⟨hword, hends⟩ := Bool.or_eq_false_iff.mp hends
      have hnone := find?_gapped hheralds hcs htail previous
      rw [hword, if_neg (by simp), List.cons_append] at hnone
      rw [List.cons_append, scrub_kept hnone,
        ih (fun d hd => hcs d (List.mem_cons_of_mem _ hd)) hends, List.cons_append]

/-- What stands behind a text that ends in the word of the rule does not depend on the text. -/
theorem scrub_of_endsIn (hsound : rule.Sound) (hheralds : rule.Heralds word)
    (hcs : ∀ c ∈ cs, Text.isBlank c = false) (htail : Gapped tail)
    (hends : endsIn word rule.startsWord previous cs = true) :
    scrub rule mask 0 previous (cs ++ tail) = cs ++ follow rule mask tail := by
  induction cs generalizing previous with
  | nil => contradiction
  | cons c cs ih =>
      have hfind := find?_gapped hheralds hcs htail previous
      have hrest : ∀ d ∈ cs, Text.isBlank d = false := fun d hd => hcs d (List.mem_cons_of_mem _ hd)
      rcases Bool.eq_false_or_eq_true (decide ((c :: cs).map foldCase = word) &&
          !(rule.startsWord && previous.any Text.isWordChar)) with hword | hword
      · rw [hword, if_pos rfl] at hfind
        unfold follow
        cases hspaced : spaced? rule tail with
        | none =>
            -- the word is announced, but no secret stands behind it
            rw [hspaced, Option.map_none, List.cons_append] at hfind
            have hshort : cs.length < word.length := by
              simp only [Bool.and_eq_true, decide_eq_true_eq] at hword
              simp [← hword.1]
            rw [List.cons_append, scrub_kept hfind, scrub_of_not_endsIn hsound hheralds hrest htail
              (endsIn_of_length_lt hshort _ _), List.cons_append]
        | some found =>
            obtain ⟨lead, secret, rest⟩ := found
            obtain ⟨hlead, hsplit⟩ := eq_of_spaced? hsound hspaced
            rw [hspaced, Option.map_some] at hfind
            have htext : c :: cs ++ tail = c :: cs ++ lead ++ secret ++ rest := by
              simp [hsplit]
            have hlast : (c :: cs ++ lead ++ secret).getLast?.or previous =
                (lead ++ secret).getLast? := by
              rw [List.append_assoc, List.getLast?_append]
              cases hpart : (lead ++ secret).getLast? with
              | none => simp_all
              | some d => rfl
            rw [htext] at hfind ⊢
            rw [scrub_replaced (by simp) hfind, hlast]
            simp
      · rw [hword, if_neg (by simp), List.cons_append] at hfind
        rw [endsIn, hword, Bool.false_or] at hends
        rw [List.cons_append, scrub_kept hfind, ih hrest hends, List.cons_append]

/-- What a rule writes behind a text is a blank first, as in the text. -/
theorem gapped_scrub (hsound : rule.Sound) (htail : Gapped tail) :
    Gapped (scrub rule mask 0 none tail) := by
  cases tail with
  | nil => exact htail
  | cons c tail =>
      rw [scrub_kept (hsound.find?_calm htail.calm)]
      exact fun d hd => htail d hd

/-- What a rule writes behind its word starts with a blank if the text does. -/
theorem gapped_follow (hsound : rule.Sound) (htail : Gapped tail) :
    Gapped (follow rule mask tail) := by
  unfold follow
  cases hspaced : spaced? rule tail with
  | none => exact gapped_scrub hsound htail
  | some found =>
      obtain ⟨lead, secret, rest⟩ := found
      obtain ⟨hlead, hsplit⟩ := eq_of_spaced? hsound hspaced
      cases lead with
      | nil => contradiction
      | cons c lead =>
          intro d hd
          refine htail d ?_
          rw [hsplit]
          exact hd

/-! ## the assignment -/

/-- What a rule writes for the text behind a secret. -/
def behindSecret (rule : Rule) (mask word secret tail : List Char) : List Char :=
  if endsIn word rule.startsWord (some '=') secret then follow rule mask tail
  else scrub rule mask 0 none tail

/-- Two secrets that end with the word or both do not have the same written behind them. -/
theorem behindSecret_congr {secret secret' : List Char}
    (h : endsIn word rule.startsWord (some '=') secret =
      endsIn word rule.startsWord (some '=') secret') :
    behindSecret rule mask word secret tail = behindSecret rule mask word secret' tail := by
  rw [behindSecret, behindSecret, h]

/-- What is written behind a secret starts with a blank if the text does. -/
theorem gapped_behindSecret (hsound : rule.Sound) (htail : Gapped tail) (secret : List Char) :
    Gapped (behindSecret rule mask word secret tail) := by
  unfold behindSecret
  split
  · exact gapped_follow hsound htail
  · exact gapped_scrub hsound htail

/-- Behind a text that passes, a rule goes on with the blank and the word. -/
theorem scrub_gap (hsound : rule.Sound) {out text : List Char}
    (hpasses : Passes rule mask AtGap none cs out) (htext : AtName text) :
    scrub rule mask 0 none (cs ++ ' ' :: text) =
      out ++ ' ' :: scrub rule mask 0 (some ' ') text := by
  have hcalm : Calm (' ' :: text) := calm_cons_of_not (by decide) text
  rw [hpasses.scrub_eq ⟨text, htext, rfl⟩, scrub_kept (hsound.find?_calm hcalm)]

/-- A rule that passes over a text keeps a letter behind it. -/
theorem scrub_shown (hsound : rule.Sound) {out : List Char}
    (hpasses : Passes rule mask AtGap none cs out) :
    scrub rule mask 0 none (cs ++ ' ' :: ['x']) = out ++ ' ' :: ['x'] := by
  have hcalm : Calm ['x'] := fun c hc => by
    obtain rfl : c = 'x' := by simpa using (List.takeWhile_prefix _).subset hc
    decide
  rw [scrub_gap hsound hpasses atName_letter, scrub_kept (hsound.find?_calm hcalm)]
  rfl

variable {key secret out : List Char}

/-- Behind a text that passes, the assignment is kept by a rule that a word announces. -/
theorem scrub_assignment (hsound : rule.Sound) (hstops : rule.announcement.StopsAt '=')
    (hheralds : rule.Heralds word) (hpasses : Passes rule mask AtGap none cs out)
    (hkey : IsSecretName key) (hsecret : IsSecret secret) (htail : Gapped tail) :
    scrub rule mask 0 none (cs ++ ' ' :: (key ++ '=' :: secret ++ tail)) =
      out ++ ' ' :: (key ++ '=' :: secret ++ behindSecret rule mask word secret tail) := by
  have hblank : ∀ c ∈ secret, Text.isBlank c = false := fun c hc => by
    have hvisible := isVisible_of_isSecretChar (hsecret.chars c hc)
    simpa [isVisible] using hvisible
  have hbehind : scrub rule mask 0 (some '=') (secret ++ tail) =
      secret ++ behindSecret rule mask word secret tail := by
    unfold behindSecret
    split
    · next hends => exact scrub_of_endsIn hsound hheralds hblank htail hends
    · next hends =>
        exact scrub_of_not_endsIn hsound hheralds hblank htail (by simpa using hends)
  have hname : AtName (key ++ '=' :: secret ++ tail) := by
    rw [List.append_assoc]
    exact hkey.atName _
  rw [scrub_gap hsound hpasses hname]
  simp only [List.append_assoc, List.cons_append]
  rw [hsound.scrub_name hstops hkey.isNameChar, hbehind]

/-- No form of a blank is in a word without blanks. -/
theorem foldCase_notMem_of_isBlank (hword : ∀ c ∈ word, Text.isBlank c = false) (c : Char)
    (hc : Text.isBlank c = true) : foldCase c ∉ word := by
  rw [foldCase_of_isBlank hc]
  exact fun hmem => absurd hc (by simp [hword c hmem])

/-- The rule for headers waits for a word with blanks behind it. -/
theorem heralds_authorization : authorizationRule.Heralds "authorization:".toList where
  announcement := rfl
  solid := foldCase_notMem_of_isBlank (by decide)
  ne_nil := by decide

/-- So does the rule for tokens. -/
theorem heralds_bearer : bearerRule.Heralds "bearer".toList where
  announcement := rfl
  solid := foldCase_notMem_of_isBlank (by decide)
  ne_nil := by decide

/-! ## the redacted text -/

/-- A word behind the text and a blank is taken for a token: the rule for headers leaves it, but the
rule for tokens does not. -/
def TakesToken (cs : List Char) : Prop :=
  let shown := scrub authorizationRule Redaction.mask.toList 0 none (cs ++ " x".toList)
  shown.getLast? = some 'x' ∧
    (scrub bearerRule Redaction.mask.toList 0 none shown).getLast? ≠ some 'x'

instance (cs : List Char) : Decidable (TakesToken cs) := inferInstanceAs (Decidable (_ ∧ _))

/-- The secrets announce the same at their ends: a header, a token, or nothing. -/
structure EndAlike (secret secret' : List Char) : Prop where
  header : endsIn "authorization:".toList false (some '=') secret =
    endsIn "authorization:".toList false (some '=') secret'
  token : endsIn "bearer".toList true (some '=') secret =
    endsIn "bearer".toList true (some '=') secret'

/-- Behind a text that takes no token, the rule for tokens passes if the rule for headers does. -/
theorem exists_passes_bearer {cs out : List Char}
    (hpasses : Passes authorizationRule Redaction.mask.toList AtGap none cs out)
    (htoken : ¬TakesToken cs) :
    ∃ out', Passes bearerRule Redaction.mask.toList AtGap none out out' := by
  refine (passes_or_takes Redaction.mask.toList none out).resolve_right ?_
  rintro ⟨out', -, htakes⟩
  have hshown : scrub authorizationRule Redaction.mask.toList 0 none (cs ++ " x".toList) =
      out ++ ' ' :: ['x'] := scrub_shown sound_authorizationRule hpasses
  obtain ⟨before, hscrub⟩ := htakes ['x'] ['x'] [] atName_letter rfl
  refine htoken ⟨?_, ?_⟩
  · rw [hshown]
    simp
  · rw [hshown, hscrub]
    simp [scrub, Redaction.mask]

/-- Such an announcement does not go over an equals sign. -/
theorem stopsAt_equals (hword : '=' ∉ word) :
    (Pattern.andThen (.word word) blanks).StopsAt '=' :=
  Pattern.stopsAt_andThen (Pattern.stopsAt_word hword) (Pattern.stopsAt_someOf (by decide))

/-- The list form of `redact_assignment`. -/
theorem redactWith_assignment {secret' : List Char} (hkey : IsSecretName key)
    (hsecret : IsSecret secret) (hsecret' : IsSecret secret') (halike : EndAlike secret secret')
    (htoken : ¬TakesToken cs) (htail : Gapped tail) :
    redactWith Redaction.mask.toList (cs ++ ' ' :: (key ++ '=' :: secret ++ tail)) =
      redactWith Redaction.mask.toList (cs ++ ' ' :: (key ++ '=' :: secret' ++ tail)) := by
  have hword := hkey.isWord hsecret
  have hword' := hkey.isWord hsecret'
  simp only [redactWith, rules, List.foldl]
  -- the header takes the assignment, or it is kept
  rcases sound_authorizationRule.passes_or_swallows reaches_authorization Pattern.coversGap_header
    Pattern.takes_header Redaction.mask.toList none cs with ⟨out, hpasses⟩ | hswallows
  swap
  · obtain ⟨out, rest, -, hscrub⟩ := hswallows tail htail
    rw [hscrub _ hword, hscrub _ hword']
  obtain ⟨out', hpasses'⟩ := exists_passes_bearer hpasses htoken
  have hstops : authorizationRule.announcement.StopsAt '=' := stopsAt_equals (by decide)
  have hstops' : bearerRule.announcement.StopsAt '=' := stopsAt_equals (by decide)
  rw [scrub_assignment sound_authorizationRule hstops heralds_authorization hpasses hkey hsecret
      htail,
    scrub_assignment sound_authorizationRule hstops heralds_authorization hpasses hkey hsecret'
      htail,
    behindSecret_congr halike.header]
  generalize htail' : behindSecret authorizationRule _ _ secret' tail = tail'
  replace htail' : Gapped tail' :=
    htail' ▸ gapped_behindSecret sound_authorizationRule htail secret'
  rw [scrub_assignment sound_bearerRule hstops' heralds_bearer hpasses' hkey hsecret htail',
    scrub_assignment sound_bearerRule hstops' heralds_bearer hpasses' hkey hsecret' htail',
    behindSecret_congr halike.token]
  generalize hlast : behindSecret bearerRule _ _ secret' tail' = last
  replace hlast : Gapped last := hlast ▸ gapped_behindSecret sound_bearerRule htail' secret'
  -- the third rule replaces the secret, or it takes the assignment for one
  congr 1
  rcases sound_namedSecretRule.passes_or_swallows reaches_namedSecret Pattern.coversGap_assigned
    Pattern.takes_assigned Redaction.mask.toList none out' with ⟨out, hpasses⟩ | hswallows
  · have hscrub : ∀ {x : List Char}, IsSecret x →
        scrub namedSecretRule Redaction.mask.toList 0 none
            (out' ++ ' ' :: (key ++ '=' :: x ++ last)) =
          out ++ ' ' :: (key ++ '=' :: (Redaction.mask.toList ++
            scrub namedSecretRule Redaction.mask.toList 0 none last)) := by
      intro x hx
      have hname : AtName (key ++ '=' :: x ++ last) := (hkey.isWord hx).atName.append last
      rw [scrub_gap sound_namedSecretRule hpasses hname, List.append_assoc, List.cons_append,
        scrub_namedSecret hkey hx hlast]
    rw [hscrub hsecret, hscrub hsecret']
  · obtain ⟨out, rest, -, hscrub⟩ := hswallows last hlast
    rw [hscrub _ hword, hscrub _ hword']

/-- **A secret in an assignment does not influence the redacted text.** Two secrets that announce
the same at their ends are redacted to the same text, whatever stands around the assignment, unless
the name is taken for the token of a bearer. -/
theorem redact_assignment {pre key s t post : String} (hkey : IsSecretName key.toList)
    (hs : IsSecret s.toList) (ht : IsSecret t.toList) (halike : EndAlike s.toList t.toList)
    (hpre : ¬TakesToken pre.toList) :
    redact (pre ++ " " ++ key ++ "=" ++ s ++ " " ++ post) =
      redact (pre ++ " " ++ key ++ "=" ++ t ++ " " ++ post) := by
  have htext := redactWith_assignment hkey hs ht halike hpre (gapped_space post.toList)
  simpa [redact] using congrArg String.ofList htext

end Runbook.Redaction

import Runbook.Proofs.Redaction.Assignment

/-!
# Runbook.Proofs.Redaction.Exposure

When the secret in an assignment stays in the text. If the name is taken for a token, it is replaced
in the place of the secret; in front of the mask then stand the word for a token and blanks, so no
rule for assignments takes the secret after all (`Rule.Assigns.scrub_plain`). Together with
`redact_assignment` this tells exactly behind which texts an assignment is safe
(`redact_assignment_iff`).
-/

namespace Runbook.Redaction

variable {rule : Rule} {mask : List Char}

/-! ## rules for assignments -/

/-- A rule for an assignment to some names. -/
structure Rule.Assigns (rule : Rule) : Prop where
  name : ∃ name : Pattern, rule.announcement = name.andThen assignment ∧
    ∀ c, Text.isBlank c = true → name.StopsAt c
  secret : rule.secret = assigned

/-- The rule for names of secrets is one for assignments. -/
theorem assigns_namedSecretRule : namedSecretRule.Assigns where
  name := ⟨_, rfl, fun _ hc => Pattern.stopsAt_nameEndingIn (isNameChar_of_isBlank hc)⟩
  secret := rfl

/-- So is the rule for addresses of databases. -/
theorem assigns_databaseRule : databaseRule.Assigns where
  name := by
    refine ⟨_, rfl, fun c hc => Pattern.stopsAt_firstOf ?_⟩
    have hwords : ∀ w ∈ ["database_url".toList, "redis_url".toList, "mongodb_uri".toList],
        ∀ d ∈ w, Text.isBlank d = false := by decide
    simp only [List.forall_mem_cons, List.not_mem_nil, false_imp_iff, implies_true,
      and_true] at hwords ⊢
    exact ⟨Pattern.stopsAt_word (foldCase_notMem_of_isBlank hwords.1 c hc),
      Pattern.stopsAt_word (foldCase_notMem_of_isBlank hwords.2.1 c hc),
      Pattern.stopsAt_word (foldCase_notMem_of_isBlank hwords.2.2 c hc)⟩
  secret := rfl

/-- The sign of an assignment stops at a plain character. -/
theorem stopsAt_assignment_of_isPlain {d : Char} (hd : IsPlain d) : assignment.StopsAt d :=
  Pattern.stopsAt_andThen (Pattern.stopsAt_run hd.visible)
    (Pattern.stopsAt_andThen (Pattern.stopsAt_one (by simp [hd.sign]))
      (Pattern.stopsAt_run hd.visible))

/-- No assignment goes on over blanks to a bracket. -/
theorem assignment_gap {gap : List Char} (hgap : ∀ c ∈ gap, Text.isBlank c = true)
    (rest : List Char) : assignment (gap ++ '[' :: rest) = none := by
  have hbracket : Text.isBlank '[' = false := by decide
  rw [assignment, Pattern.andThen, Pattern.run, List.takeWhile_append_of_pos hgap,
    List.dropWhile_append_of_pos hgap, List.dropWhile_cons_of_neg (by simp [hbracket])]
  rfl

/-- Texts with some blanks in front of a bracket. -/
def AtBracket (gap tail : List Char) : Prop := ∃ rest, tail = gap ++ '[' :: rest

section

variable {d g : Char} {gap : List Char}

/-- The announcement of an assignment does not go on over blanks behind a plain character, nor does
it end in front of them. -/
theorem announcement_plain {name : Pattern} (hname : name.StopsAt g) (hd : IsPlain d)
    (hgap : ∀ c ∈ g :: gap, Text.isBlank c = true) (cs : List Char) :
    (∀ tail, AtBracket (g :: gap) tail → name.andThen assignment (cs ++ [d] ++ tail) = none) ∨
      ∃ lead left, cs = lead ++ left ∧ ∀ tail, AtBracket (g :: gap) tail →
        name.andThen assignment (cs ++ [d] ++ tail) = some (lead, left ++ [d] ++ tail) := by
  rcases hname (cs ++ [d]) with hnone | ⟨part, left, hsplit, hfound⟩
  · refine .inl ?_
    rintro _ ⟨rest, rfl⟩
    rw [Pattern.andThen, List.cons_append, hnone, Option.bind_none]
  rcases List.eq_nil_or_concat' left with rfl | ⟨left, e, rfl⟩
  · -- the name goes on up to the blanks
    refine .inl ?_
    rintro _ ⟨rest, rfl⟩
    have hnone := assignment_gap hgap rest
    rw [List.cons_append] at hnone ⊢
    rw [Pattern.andThen, hfound, Option.bind_some, List.nil_append, hnone, Option.map_none]
  obtain ⟨rfl, rfl⟩ : cs = part ++ left ∧ d = e := by
    rw [← List.append_assoc] at hsplit
    simpa using List.append_inj' hsplit rfl
  have hname : ∀ rest, name (part ++ left ++ [d] ++ (g :: gap ++ '[' :: rest)) =
      some (part, left ++ d :: (g :: gap ++ '[' :: rest)) := fun rest => by
    simpa using hfound (gap ++ '[' :: rest)
  rcases stopsAt_assignment_of_isPlain hd left with hnone | ⟨sign, left, rfl, hassign⟩
  · refine .inl ?_
    rintro _ ⟨rest, rfl⟩
    rw [Pattern.andThen, hname, Option.bind_some, hnone, Option.map_none]
  · refine .inr ⟨part ++ sign, left, (List.append_assoc ..).symm, ?_⟩
    rintro _ ⟨rest, rfl⟩
    rw [Pattern.andThen, hname, Option.bind_some, hassign, Option.map_some]
    simp

/-- A text with a plain character at its end decides what a rule for assignments finds, whatever
stands behind blanks and a bracket. -/
theorem Rule.Assigns.decides_plain (hassigns : rule.Assigns) (hsound : rule.Sound) (hd : IsPlain d)
    (hgap : ∀ c ∈ g :: gap, Text.isBlank c = true) (previous : Option Char) (cs : List Char) :
    Decides rule (AtBracket (g :: gap)) previous (cs ++ [d]) := by
  obtain ⟨⟨name, hannounce, hname⟩, hsecret⟩ := hassigns
  have hg : Text.isBlank g = true := hgap g List.mem_cons_self
  cases hword : rule.startsWord && previous.any Text.isWordChar with
  | true => exact .inl fun tail _ => Rule.find?_eq_none hword _
  | false =>
      have hfind := Rule.find?_eq_bind hword
      rw [hannounce, hsecret] at hfind
      rcases announcement_plain (hname g hg) hd hgap cs with hnone | ⟨lead, left, rfl, hlead⟩
      · refine .inl fun tail htail => ?_
        rw [hfind, hnone tail htail, Option.bind_none]
      have hstops : assigned.StopsAt g := Pattern.stopsAt_someOf (by simp [isSecretChar, hg])
      rcases hstops (left ++ [d]) with hnone | ⟨secret, behind, hsplit, htaken⟩
      · refine .inl ?_
        rintro _ ⟨rest, rfl⟩
        rw [hfind, hlead _ ⟨rest, rfl⟩, Option.bind_some, List.cons_append, hnone, Option.map_none]
      · have hcs : lead ++ left ++ [d] = lead ++ secret ++ behind := by
          rw [List.append_assoc, hsplit, List.append_assoc]
        refine hsound.decides ⟨[], rfl⟩ hcs ?_
        rintro _ ⟨rest, rfl⟩
        rw [hfind, hlead _ ⟨rest, rfl⟩, Option.bind_some, List.cons_append, htaken, Option.map_some]

end

/-- A text that ends plainly is dealt with on its own in front of a bracket, and what is written for
it ends plainly too. -/
theorem Rule.Assigns.scrub_plain (hassigns : rule.Assigns) (hsound : rule.Sound) {m : Char}
    (hmask : mask.getLast? = some m) (hm : IsPlain m) {cs : List Char} (h : EndsPlain cs) :
    ∃ out, EndsPlain out ∧ ∀ rest, scrub rule mask 0 none (cs ++ '[' :: rest) =
      out ++ scrub rule mask 0 none ('[' :: rest) := by
  obtain ⟨front, d, gap, rfl, hd, hne, hgap⟩ := h
  cases gap with
  | nil => contradiction
  | cons g gap =>
      obtain ⟨out, hpasses⟩ := exists_passes_of_last mask
        (hassigns.decides_plain hsound hd hgap) none front
      obtain ⟨e, he, hlast⟩ : ∃ e, IsPlain e ∧ out.getLast? = some e := by
        rcases hpasses.getLast?_eq (by rintro rfl; contradiction) with hsame | hmasked
        · exact ⟨d, hd, hsame.trans (by simp)⟩
        · exact ⟨m, hm, hmasked.trans hmask⟩
      obtain ⟨out, rfl⟩ := List.getLast?_eq_some_iff.mp hlast
      refine ⟨out ++ [e] ++ g :: gap, ⟨out, e, g :: gap, by simp, he, hne, hgap⟩, fun rest => ?_⟩
      have hblank : ∀ c ∈ Text.blankCodes, foldCase (Char.ofNat c) ∉ telltales := by decide
      have hcalm : ∀ c ∈ g :: gap, foldCase c ∉ telltales := fun c hc =>
        Text.of_isBlank (P := fun c => foldCase c ∉ telltales) hblank (hgap c hc)
      have htext : front ++ d :: (g :: gap) ++ '[' :: rest =
          front ++ [d] ++ (g :: gap ++ '[' :: rest) := by simp
      rw [htext, hpasses.scrub_eq ⟨rest, rfl⟩,
        hsound.scrub_append_calm hcalm (calm_cons_of_not (by decide) rest), ← List.append_assoc]

/-! ## the secret in the text -/

/-- The rules for assignments leave the mask of a token alone, with a letter behind it. -/
theorem scrub_maskedSecret : ∀ c ∈ ['x', 'y'], ∀ rule ∈ [namedSecretRule, databaseRule],
    scrub rule Redaction.mask.toList 0 none (Redaction.mask.toList ++ [c, ' ']) =
      Redaction.mask.toList ++ [c, ' '] := by
  decide

/-- The name with its equals sign is a token. -/
theorem secret_bearer {key : List Char} (hkey : IsSecretName key) {c : Char} (hc : c ≠ '=')
    (rest : List Char) :
    bearerRule.secret (key ++ '=' :: c :: rest) = some (key ++ ['='], c :: rest) := by
  have htoken : ∀ d ∈ key, isTokenChar d = true := fun d hd =>
    (isKeyChar_of_ascii (hkey.ascii d hd)).token
  have hequals : isTokenChar '=' = false := by decide
  simp [bearerRule, Pattern.andThen, Pattern.someOf, Pattern.run,
    List.takeWhile_append_of_pos htoken, List.dropWhile_append_of_pos htoken, hequals, hc,
    hkey.ne_nil]

/-- The secrets of one letter that are looked at. -/
theorem isSecret_letter : ∀ c ∈ ['x', 'y'], IsSecret [c] := by
  have hchar : ∀ c ∈ ['x', 'y'], isSecretChar c = true := by decide
  exact fun c hc => ⟨by simp, by simpa using hchar c hc⟩

/-- Nothing is announced in one of the letters and the blank behind it. -/
theorem scrub_letter (hsound : rule.Sound) (previous : Option Char) :
    ∀ c ∈ ['x', 'y'], scrub rule mask 0 previous [c, ' '] = [c, ' '] := by
  have hcalm : ∀ c ∈ ['x', 'y'], ∀ d ∈ [c, ' '], foldCase d ∉ telltales := by decide
  intro c hc
  exact hsound.scrub_append_calm (hcalm c hc) calm_nil previous

/-- In front of a text that takes a token, the rule for headers passes and the one for tokens takes
what stands behind the text. -/
theorem TakesToken.takes {cs : List Char} (htoken : TakesToken cs) :
    ∃ out out', Passes authorizationRule Redaction.mask.toList AtGap none cs out ∧ EndsPlain out' ∧
      ∀ tail token rest, AtName tail → bearerRule.secret tail = some (token, rest) →
        ∃ before, scrub bearerRule Redaction.mask.toList 0 none (out ++ ' ' :: tail) =
          out' ++ Redaction.mask.toList ++
            scrub bearerRule Redaction.mask.toList 0 before rest := by
  obtain ⟨hheader, htaken⟩ := htoken
  have hmask : Redaction.mask.toList.getLast? = some ']' := by decide
  rcases sound_authorizationRule.passes_or_swallows reaches_authorization Pattern.coversGap_header
    Pattern.takes_header Redaction.mask.toList none cs with ⟨out, hpasses⟩ | hswallows
  swap
  · -- the letter would be replaced
    obtain ⟨out, rest, hrest, hscrub⟩ := hswallows [] (by simp [Gapped])
    have hword := hscrub ['x'] ⟨atName_letter, by decide⟩
    obtain rfl : rest = [] := by simpa using hrest
    have hlast : (scrub authorizationRule Redaction.mask.toList 0 none
        (cs ++ " x".toList)).getLast? = some ']' := by
      refine (congrArg List.getLast? hword).trans ?_
      simp [scrub, List.getLast?_append, hmask]
    rw [hlast] at hheader
    contradiction
  rcases passes_or_takes Redaction.mask.toList none out with
    ⟨out', hpasses'⟩ | ⟨out', hplain, htakes⟩
  · -- the letter would be kept
    refine absurd ?_ htaken
    have hshown : scrub authorizationRule Redaction.mask.toList 0 none (cs ++ " x".toList) =
        out ++ ' ' :: ['x'] := scrub_shown sound_authorizationRule hpasses
    rw [hshown, scrub_shown sound_bearerRule hpasses']
    simp
  · exact ⟨out, out', hpasses, hplain, htakes⟩

/-- Behind a text that takes a token, the first two rules leave the secret without its name. -/
theorem exists_exposed {cs key : List Char} (htoken : TakesToken cs) (hkey : IsSecretName key) :
    ∃ out, EndsPlain out ∧ ∀ c ∈ ['x', 'y'],
      scrub bearerRule Redaction.mask.toList 0 none
          (scrub authorizationRule Redaction.mask.toList 0 none
            (cs ++ ' ' :: (key ++ '=' :: [c] ++ [' ']))) =
        out ++ Redaction.mask.toList ++ [c, ' '] := by
  obtain ⟨out, out', hpasses, hplain, htakes⟩ := htoken.takes
  have hstops : authorizationRule.announcement.StopsAt '=' := stopsAt_equals (by decide)
  refine ⟨out', hplain, fun c hc => ?_⟩
  have hbehind : ∀ c ∈ ['x', 'y'], behindSecret authorizationRule Redaction.mask.toList
      "authorization:".toList [c] [' '] = [' '] := by
    decide
  have hsign : ∀ c ∈ ['x', 'y'], c ≠ '=' := by decide
  obtain ⟨before, hscrub⟩ := htakes _ _ _ (hkey.atName _) (secret_bearer hkey (hsign c hc) [' '])
  rw [scrub_assignment sound_authorizationRule hstops heralds_authorization hpasses hkey
    (isSecret_letter c hc) (gapped_space []), hbehind c hc, List.append_assoc, List.cons_append,
    List.singleton_append, hscrub, scrub_letter sound_bearerRule before c hc]

/-- Behind a text that takes a token, a secret of one letter is not replaced. -/
theorem redactWith_exposed {cs key : List Char} (htoken : TakesToken cs) (hkey : IsSecretName key) :
    ∃ out, ∀ c ∈ ['x', 'y'],
      redactWith Redaction.mask.toList (cs ++ ' ' :: (key ++ '=' :: [c] ++ [' '])) =
        out ++ [c, ' '] := by
  obtain ⟨out, hplain, hexposed⟩ := exists_exposed htoken hkey
  have hlast : Redaction.mask.toList.getLast? = some ']' := by decide
  have hbracket : IsPlain ']' := ⟨by decide, by decide⟩
  obtain ⟨out', hplain', hnamed⟩ :=
    assigns_namedSecretRule.scrub_plain sound_namedSecretRule hlast hbracket hplain
  obtain ⟨out'', -, hdatabase⟩ :=
    assigns_databaseRule.scrub_plain sound_databaseRule hlast hbracket hplain'
  refine ⟨out'' ++ Redaction.mask.toList, fun c hc => ?_⟩
  have hmask : ∀ rest, Redaction.mask.toList ++ rest = '[' :: ("REDACTED]".toList ++ rest) :=
    fun rest => rfl
  have hnamed' := scrub_maskedSecret c hc namedSecretRule (by simp)
  have hdatabase' := scrub_maskedSecret c hc databaseRule (by simp)
  simp only [redactWith, rules, List.foldl]
  rw [hexposed c hc, List.append_assoc, hmask, hnamed, ← hmask, hnamed', hmask, hdatabase, ← hmask,
    hdatabase', List.append_assoc]

/-- **Where a secret in an assignment does not influence the redacted text.** Behind exactly the
texts that take no token, any two secrets that announce the same at their ends are redacted to the
same text, whatever follows them. Behind `Bearer` the name of the secret is replaced in its place.
-/
theorem redact_assignment_iff {pre key : String} (hkey : IsSecretName key.toList) :
    (∀ s t post : String, IsSecret s.toList → IsSecret t.toList → EndAlike s.toList t.toList →
      redact (pre ++ " " ++ key ++ "=" ++ s ++ " " ++ post) =
        redact (pre ++ " " ++ key ++ "=" ++ t ++ " " ++ post)) ↔ ¬TakesToken pre.toList := by
  constructor
  · intro hsame htoken
    obtain ⟨out, hexposed⟩ := redactWith_exposed htoken hkey
    have htext : ∀ c ∈ ['x', 'y'],
        redact (pre ++ " " ++ key ++ "=" ++ String.singleton c ++ " " ++ "") =
          String.ofList (out ++ [c, ' ']) := fun c hc => by
      simpa [redact] using congrArg String.ofList (hexposed c hc)
    have hends : EndAlike ['x'] ['y'] := ⟨by decide, by decide⟩
    have hletters := hsame (String.singleton 'x') (String.singleton 'y') ""
      (isSecret_letter 'x' (by simp)) (isSecret_letter 'y' (by simp)) hends
    rw [htext 'x' (by simp), htext 'y' (by simp)] at hletters
    simp at hletters
  · intro hpre s t post hs ht halike
    exact redact_assignment hkey hs ht halike hpre

/-- In front of the assignment stands a token already. -/
theorem redact_assignment_iff_token : IsSecretName "API_KEY".toList ∧
    ¬TakesToken "Bearer b".toList ∧
    redact ("Bearer b" ++ " " ++ "API_KEY" ++ "=" ++ "abc123" ++ " " ++ "and more") =
      redact ("Bearer b" ++ " " ++ "API_KEY" ++ "=" ++ "x=y" ++ " " ++ "and more") := by
  have hkey : IsSecretName "API_KEY".toList := ⟨by decide, by decide⟩
  have hpre : ¬TakesToken "Bearer b".toList := by decide
  exact ⟨hkey, hpre, (redact_assignment_iff hkey).mpr hpre "abc123" "x=y" "and more"
    ⟨by decide, by decide⟩ ⟨by decide, by decide⟩ ⟨by decide, by decide⟩⟩

/-- Behind the word for a token the name is taken for one and the secret stays, and a secret that
ends in the word for a header has what follows it replaced. -/
theorem redact_assignment_ne :
    redact ("Bearer" ++ " " ++ "API_KEY" ++ "=" ++ "abc123" ++ " " ++ "") ≠
      redact ("Bearer" ++ " " ++ "API_KEY" ++ "=" ++ "xyz789" ++ " " ++ "") ∧
    redact ("" ++ " " ++ "API_KEY" ++ "=" ++ "authorization:" ++ " " ++ "done") ≠
      redact ("" ++ " " ++ "API_KEY" ++ "=" ++ "abc123" ++ " " ++ "done") := by
  decide

end Runbook.Redaction

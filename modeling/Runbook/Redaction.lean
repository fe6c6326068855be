import Runbook.Text.Blank
import Runbook.Text.WordCharacter

/-!
# Runbook.Redaction

Replacing what looks like a secret before a text is shown. Each of the `rules` finds the places
where a secret is announced, as in `Authorization: ...`, `Bearer ...`, `API_TOKEN=...` or
`DATABASE_URL=...`; the announcement is kept and the secret behind it replaced. The rules are
applied one after the other, so a later rule also sees what an earlier one wrote.

A rule is made of two patterns. A pattern takes a part off the front of a text and is done with the
longest part that it can take: it never gives characters back, because in none of the rules could
what follows begin with them. The parts that a pattern takes and leaves make up its text
(`Pattern.Splits`).
-/

namespace Runbook.Redaction

/-! ## Characters -/

/-- The letter that stands for a letter of either case. The long s and the Kelvin sign are other
forms of two letters. -/
def foldCase (c : Char) : Char :=
  if c.toNat = 0x17f then 's' else if c.toNat = 0x212a then 'k' else c.toLower

/-- A letter, a digit, or an underscore. -/
def isNameChar (c : Char) : Bool := (foldCase c).isAlphanum || c = '_'

/-- A character of a bearer token. -/
def isTokenChar (c : Char) : Bool := (foldCase c).isAlphanum || "-._~+/".toList.contains c

/-- A character that is not blank. -/
def isVisible (c : Char) : Bool := !Text.isBlank c

/-- A character of an assigned secret, which ends at a blank, a comma or a semicolon. -/
def isSecretChar (c : Char) : Bool := !(Text.isBlank c || c = ',' || c = ';')

/-! ## Patterns -/

/-- Takes a part off the front of a text: gives the part and what is left, or nothing. -/
abbrev Pattern := List Char → Option (List Char × List Char)

namespace Pattern

/-- As many characters of a kind as there are. -/
def run (p : Char → Bool) : Pattern := fun cs => some (cs.takeWhile p, cs.dropWhile p)

/-- As many characters of a kind as there are, and at least one. -/
def someOf (p : Char → Bool) : Pattern := fun cs =>
  if (cs.takeWhile p).isEmpty then none else some (cs.takeWhile p, cs.dropWhile p)

/-- One character of a kind. -/
def one (p : Char → Bool) : Pattern
  | [] => none
  | c :: cs => if p c then some ([c], cs) else none

/-- A word in any case. -/
def word (w : List Char) : Pattern := fun cs =>
  if (cs.take w.length).map foldCase = w then some (cs.take w.length, cs.drop w.length) else none

/-- A run of name characters that ends in one of some words. -/
def nameEndingIn (words : List (List Char)) : Pattern := fun cs =>
  let name := cs.takeWhile isNameChar
  if words.any fun w => w.isSuffixOf (name.map foldCase) then some (name, cs.dropWhile isNameChar)
  else none

/-- One part and then another. -/
def andThen (first second : Pattern) : Pattern := fun cs =>
  (first cs).bind fun a => (second a.2).map fun b => (a.1 ++ b.1, b.2)

/-- A part if it is there, and else nothing. -/
def optionally (pattern : Pattern) : Pattern := fun cs => (pattern cs).or (some ([], cs))

/-- The first of some patterns that finds its part. -/
def firstOf (patterns : List Pattern) : Pattern := fun cs => patterns.findSome? fun p => p cs

/-- What a pattern takes and leaves is the text. -/
def Splits (pattern : Pattern) : Prop :=
  ∀ cs part rest, pattern cs = some (part, rest) → cs = part ++ rest

/-- A run is cut off the front of a text. -/
theorem splits_run (p : Char → Bool) : Splits (run p) := by
  intro cs part rest h
  simp only [run, Option.some.injEq, Prod.mk.injEq] at h
  obtain ⟨rfl, rfl⟩ := h
  exact List.takeWhile_append_dropWhile.symm

/-- So is a run of one character or more. -/
theorem splits_someOf (p : Char → Bool) : Splits (someOf p) := by
  intro cs part rest h
  unfold someOf at h
  split at h
  · simp at h
  · exact splits_run p cs part rest h

/-- So is a single character. -/
theorem splits_one (p : Char → Bool) : Splits (one p) := by
  intro cs part rest h
  unfold one at h
  split at h
  · simp at h
  · split at h
    · simp only [Option.some.injEq, Prod.mk.injEq] at h
      obtain ⟨rfl, rfl⟩ := h
      rfl
    · simp at h

/-- So is a word in any case. -/
theorem splits_word (w : List Char) : Splits (word w) := by
  intro cs part rest h
  unfold word at h
  split at h
  · simp only [Option.some.injEq, Prod.mk.injEq] at h
    obtain ⟨rfl, rfl⟩ := h
    exact (List.take_append_drop _ _).symm
  · simp at h

/-- So is a name. -/
theorem splits_nameEndingIn (words : List (List Char)) : Splits (nameEndingIn words) := by
  intro cs part rest h
  simp only [nameEndingIn] at h
  split at h
  · exact splits_run isNameChar cs part rest h
  · simp at h

/-- Two patterns in a row cut a text where the second one does. -/
theorem splits_andThen {first second : Pattern} (hf : Splits first) (hs : Splits second) :
    Splits (first.andThen second) := by
  intro cs part rest h
  simp only [andThen, Option.bind_eq_some_iff, Option.map_eq_some_iff] at h
  obtain ⟨⟨a, middle⟩, ha, ⟨b, tail⟩, hb, h⟩ := h
  simp only [Prod.mk.injEq] at h
  obtain ⟨rfl, rfl⟩ := h
  rw [hf cs a middle ha, hs middle b tail hb, List.append_assoc]

end Pattern

/-! ## Rules -/

/-- Where a secret is announced and how far it goes. -/
structure Rule where
  /-- Must the announcement not follow a word character? -/
  startsWord : Bool
  /-- The announcement, which is kept. -/
  announcement : Pattern
  /-- The secret, which is replaced. -/
  secret : Pattern

/-- Blanks, at least one. -/
def blanks : Pattern := .someOf Text.isBlank

/-- An equals sign or a colon, with blanks around it. -/
def assignment : Pattern :=
  .andThen (.run Text.isBlank) (.andThen (.one fun c => c = '=' || c = ':') (.run Text.isBlank))

/-- An assigned secret. -/
def assigned : Pattern := .someOf isSecretChar

/-- The header with its scheme and credentials. -/
def authorizationRule : Rule where
  startsWord := false
  announcement := .andThen (.word "authorization:".toList) blanks
  secret := .andThen (.someOf isVisible) (.optionally (.andThen blanks assigned))

/-- The scheme, wherever it stands, and a token. -/
def bearerRule : Rule where
  startsWord := true
  announcement := .andThen (.word "bearer".toList) blanks
  secret := .andThen (.someOf isTokenChar) (.run (· = '='))

/-- The words in which the name of a secret ends. -/
def secretWords : List (List Char) :=
  ["key".toList, "token".toList, "secret".toList, "password".toList, "passwd".toList]

/-- An assignment to the name of a secret. -/
def namedSecretRule : Rule where
  startsWord := true
  announcement := .andThen (.nameEndingIn secretWords) assignment
  secret := assigned

/-- An assignment of the address of a database. -/
def databaseRule : Rule where
  startsWord := true
  announcement := .andThen (.firstOf [.word "database_url".toList, .word "redis_url".toList,
    .word "mongodb_uri".toList]) assignment
  secret := assigned

/-- All rules in the order in which they are applied. -/
def rules : List Rule := [authorizationRule, bearerRule, namedSecretRule, databaseRule]

/-- The announcement and the secret at the front of a text that follows a given character. -/
def Rule.find? (rule : Rule) (previous : Option Char) (cs : List Char) :
    Option (List Char × List Char) :=
  if rule.startsWord && previous.any Text.isWordChar then none
  else
    (rule.announcement cs).bind fun lead =>
      (rule.secret lead.2).map fun secret => (lead.1, secret.1)

/-! ## Redacting -/

/-- Applies a rule from left to right. The next `skip` characters belong to a part that is dealt
with already, and `previous` is the character before the text. -/
def scrub (rule : Rule) (mask : List Char) (skip : Nat) (previous : Option Char) :
    List Char → List Char
  | [] => []
  | c :: cs =>
    match skip with
    | skip + 1 => scrub rule mask skip (some c) cs
    | 0 =>
      match rule.find? previous (c :: cs) with
      | none => c :: scrub rule mask 0 (some c) cs
      | some (lead, secret) =>
        lead ++ mask ++ scrub rule mask (lead.length + secret.length - 1) (some c) cs

/-- The text with each secret replaced by a mask. -/
def redactWith (mask : List Char) (cs : List Char) : List Char :=
  rules.foldl (fun cs rule => scrub rule mask 0 none cs) cs

/-- What stands in the place of a secret. -/
def mask : String := "[REDACTED]"

/-- The text with each secret replaced by the usual mask. -/
def redact (s : String) : String := String.ofList (redactWith mask.toList s.toList)

/-- The characters that belong to a part are passed over. -/
theorem scrub_skip (rule : Rule) (mask part rest : List Char) (previous : Option Char)
    (h : part ≠ []) :
    scrub rule mask part.length previous (part ++ rest) =
      scrub rule mask 0 part.getLast? rest := by
  induction part generalizing previous with
  | nil => exact absurd rfl h
  | cons c part ih =>
    rw [List.length_cons, List.cons_append, scrub]
    cases part with
    | nil => rfl
    | cons d part => rw [ih (some c) (by simp), List.getLast?_cons_cons]

end Runbook.Redaction

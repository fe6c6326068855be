/-!
# Runbook.Text.Search

Finding one text inside another. `dropLead? lead` takes `lead` off the front of a text, `cut? mark`
splits a text around the first occurrence of `mark` (`eq_of_cut?`), and `occurs` asks whether there
is one.
-/

namespace Runbook.Text

/-- What follows `lead` at the front of a text, if the text starts with it. -/
def dropLead? : List Char → List Char → Option (List Char)
  | [], cs => some cs
  | _ :: _, [] => none
  | m :: ms, c :: cs => if m = c then dropLead? ms cs else none

/-- A lead is dropped just when the text has it in front. -/
theorem dropLead?_eq_some_iff {lead cs rest : List Char} :
    dropLead? lead cs = some rest ↔ cs = lead ++ rest := by
  induction lead generalizing cs with
  | nil => simp [dropLead?, eq_comm]
  | cons m ms ih =>
    cases cs with
    | nil => simp [dropLead?]
    | cons c cs =>
      by_cases h : m = c
      · subst h; simp [dropLead?, ih]
      · simp [dropLead?, h, Ne.symm h]

/-- The text without `tail` at its end, if it ends so. -/
def dropTail? (tail cs : List Char) : Option (List Char) :=
  (dropLead? tail.reverse cs.reverse).map List.reverse

/-- A tail is dropped just when the text ends with it. -/
theorem dropTail?_eq_some_iff {tail cs rest : List Char} :
    dropTail? tail cs = some rest ↔ cs = rest ++ tail := by
  simp only [dropTail?, Option.map_eq_some_iff, dropLead?_eq_some_iff]
  constructor
  · rintro ⟨r, h, rfl⟩
    simpa using congrArg List.reverse h
  · rintro rfl
    exact ⟨rest.reverse, by simp, by simp⟩

/-- The text before and after the first occurrence of `mark`. -/
def cut? (mark : List Char) : List Char → Option (List Char × List Char)
  | [] => (dropLead? mark []).map fun rest => ([], rest)
  | c :: cs =>
    match dropLead? mark (c :: cs) with
    | some rest => some ([], rest)
    | none => (cut? mark cs).map fun (before, after) => (c :: before, after)

/-- The two sides of a cut, with the mark between them, are the whole text. -/
theorem eq_of_cut? {mark cs before after : List Char} (h : cut? mark cs = some (before, after)) :
    cs = before ++ mark ++ after := by
  induction cs generalizing before with
  | nil =>
    simp only [cut?, Option.map_eq_some_iff, Prod.mk.injEq] at h
    obtain ⟨rest, h, rfl, rfl⟩ := h
    simpa using dropLead?_eq_some_iff.1 h
  | cons c cs ih =>
    rw [cut?] at h
    split at h
    · next rest hr =>
      obtain ⟨rfl, rfl⟩ := Prod.mk.injEq .. ▸ Option.some.injEq .. ▸ h
      simpa using dropLead?_eq_some_iff.1 hr
    · simp only [Option.map_eq_some_iff, Prod.mk.injEq, Prod.exists] at h
      obtain ⟨b, a, hc, rfl, rfl⟩ := h
      simp [ih hc]

/-- Does `mark` occur in the text? -/
def occurs (mark cs : List Char) : Bool := (cut? mark cs).isSome

/-- The texts between the occurrences of the character `mark`, one more than there are of it. -/
def splitOnChar (mark : Char) : List Char → List (List Char)
  | [] => [[]]
  | c :: cs =>
    if c = mark then [] :: splitOnChar mark cs
    else
      match splitOnChar mark cs with
      | [] => [[c]]
      | piece :: pieces => (c :: piece) :: pieces

/-- `occurs` on strings. -/
def contains (s mark : String) : Bool := occurs mark.toList s.toList

/-- Two texts that differ in the case of ASCII letters only. -/
def sameIgnoringCase (s t : String) : Bool :=
  s.toList.map Char.toLower == t.toList.map Char.toLower

end Runbook.Text

import Runbook.Proofs.Value.Reading
import Runbook.Value.RecordText

/-!
# Runbook.Proofs.Value.RecordText

Records read back from their indented texts. A field is written by a value if reading the text of
the value assigns the field, whatever follows (`RecordFormat.Writes`). A mapping of such values
under the names of different fields is read as the default record with all of them assigned in
their order (`RecordFormat.ofText_pretty`).
-/

namespace Runbook

open Value (newline prettyEntries)

namespace Reading

/-! ## fields -/

/-- A text in quotes starts where its quote stands. -/
theorem skipGaps_quoted (s : String) (rest : List Char) :
    skipGaps (quoted s ++ rest) = '"' :: (s.toList.flatMap escapeChar ++ '"' :: rest) := by
  simp [quoted, skipGaps, isGap]

/-- A field for a text reads a quoted one back. -/
theorem textField_quoted (expected s : String) (rest : List Char) :
    textField expected (' ' :: (quoted s ++ rest)) = .ok (s, rest) := by
  have hskip : skipGaps (' ' :: (quoted s ++ rest)) = _ := skipGaps_quoted s rest
  rw [textField, hskip]
  exact string_quoted s rest

/-- A name is read as the choice that it stands for. -/
theorem choiceField_quoted {α : Type} {choices : List (String × α)} {name : String} {x : α}
    (h : ∀ rest, choice choices name rest = .ok x) (rest : List Char) :
    choiceField choices (' ' :: (quoted name ++ rest)) = .ok (x, rest) := by
  have hskip : skipGaps (' ' :: (quoted name ++ rest)) = _ := skipGaps_quoted name rest
  simp only [choiceField, hskip, string_quoted, bind, Except.bind, h]
  rfl

/-- A field that may be missing reads the null as missing. -/
theorem optionalField_null {α : Type} (field : List Char → Reading α) (rest : List Char) :
    optionalField field (' ' :: (Value.null.prettyChars 1 ++ rest)) = .ok (none, rest) :=
  rfl

/-- It reads a quoted text as the text. -/
theorem optionalField_quoted (expected s : String) (rest : List Char) :
    optionalField (textField expected) (' ' :: (quoted s ++ rest)) = .ok (some s, rest) := by
  have hskip : skipGaps (' ' :: (quoted s ++ rest)) = _ := skipGaps_quoted s rest
  rw [optionalField, hskip]
  -- a text in quotes is no null
  change (textField expected ('"' :: _)).map _ = _
  have hfield : textField expected ('"' :: (s.toList.flatMap escapeChar ++ '"' :: rest)) =
      .ok (s, rest) := string_quoted s rest
  rw [hfield]
  rfl

end Reading

/-! ## entries -/

/-- A field as it is written: its name, the value that stands for it, and what reading it does. -/
structure WrittenField (α : Type) where
  name : String
  value : Value
  assign : α → α

namespace WrittenField

variable {α : Type}

/-- The entry of a field. -/
def entry (field : WrittenField α) : String × Value := (field.name, field.value)

/-- A record with fields assigned in their order. -/
def assignAll (fields : List (WrittenField α)) (record : α) : α :=
  fields.foldl (fun record field => field.assign record) record

end WrittenField

namespace RecordFormat

open Reading

variable {α : Type} {format : RecordFormat α}

/-- The value is what the field is written by. -/
def Writes (format : RecordFormat α) (field : WrittenField α) : Prop :=
  ∃ read, format.field? field.name = some read ∧ ∀ record rest,
    read record (' ' :: (field.value.prettyChars 1 ++ rest)) = .ok (field.assign record, rest)

/-- The text behind the quote that opens the name of a field. -/
def entryTail (field : WrittenField α) (rest : List Char) : List Char :=
  field.name.toList.flatMap escapeChar ++
    '"' :: ':' :: ' ' :: (field.value.prettyChars 1 ++ rest)

/-- A written entry of the format is assigned to the record. -/
theorem entry_eq {field : WrittenField α} (h : format.Writes field) (record : α)
    (rest : List Char) :
    format.entry record field.name (':' :: ' ' :: (field.value.prettyChars 1 ++ rest)) =
      .ok (field.assign record, rest) := by
  obtain ⟨read, hfield, hread⟩ := h
  have hcolon (cs : List Char) : colon (':' :: cs) = .ok cs := rfl
  simp only [entry, hcolon, hfield, hread]

/-- An entry with the closing brace behind it is the last one. -/
theorem entries_last {field : WrittenField α} (h : format.Writes field) {seen : List String}
    (hnew : field.name ∉ seen) (steps : Nat) (record : α) (rest : List Char) :
    format.entries record seen (steps + 1) (entryTail field (newline 0 ++ '}' :: rest)) =
      .ok (field.assign record, rest) := by
  have hunseen : seen.contains field.name = false := by simpa using hnew
  have hclose : skipGaps (newline 0 ++ '}' :: rest) = '}' :: rest := rfl
  simp only [entries, entryTail, string_quoted, bind, Except.bind, hunseen, Bool.false_eq_true,
    if_false, entry_eq h, hclose]
  rfl

/-- Behind an entry with a comma the next one is read, in which the field must not occur again. -/
theorem entries_next {field next : WrittenField α} (h : format.Writes field) {seen : List String}
    (hnew : field.name ∉ seen) (steps : Nat) (record : α) (rest : List Char) :
    format.entries record seen (steps + 1)
        (entryTail field (',' :: newline 1 ++ '"' :: entryTail next rest)) =
      format.entries (field.assign record) (field.name :: seen) steps (entryTail next rest) := by
  have hunseen : seen.contains field.name = false := by simpa using hnew
  have hcomma (cs : List Char) : skipGaps (',' :: cs) = ',' :: cs := rfl
  have hquote (cs : List Char) : skipGaps (newline 1 ++ '"' :: cs) = '"' :: cs := rfl
  obtain ⟨read, hfound, -⟩ := id h
  have hknown : (format.field? field.name).isSome = true := by rw [hfound]; rfl
  rw [entries, entryTail, string_quoted]
  simp only [bind, Except.bind, hunseen, Bool.false_eq_true, if_false, entry_eq h, hknown, if_true,
    List.cons_append, hcomma, hquote]

/-- Entries for different fields are read as the fields, up to the closing brace. -/
theorem entries_eq {field : WrittenField α} {fields : List (WrittenField α)}
    (hwrites : ∀ f ∈ field :: fields, format.Writes f)
    (hnames : ((field :: fields).map WrittenField.name).Nodup) {seen : List String}
    (hseen : ∀ f ∈ field :: fields, f.name ∉ seen) {steps : Nat} (hsteps : fields.length < steps)
    (record : α) (rest : List Char) :
    format.entries record seen steps (entryTail field
        (prettyEntries 1 (fields.map WrittenField.entry) ++ (newline 0 ++ '}' :: rest))) =
      .ok (WrittenField.assignAll (field :: fields) record, rest) := by
  induction fields generalizing field seen steps record with
  | nil =>
      obtain ⟨steps, rfl⟩ : ∃ n, steps = n + 1 := ⟨steps - 1, by omega⟩
      exact entries_last (hwrites field List.mem_cons_self) (hseen field List.mem_cons_self) steps
        record rest
  | cons next fields ih =>
      obtain ⟨steps, rfl⟩ : ∃ n, steps = n + 1 := ⟨steps - 1, by omega⟩
      have htext : prettyEntries 1 ((next :: fields).map WrittenField.entry) ++
          (newline 0 ++ '}' :: rest) =
            ',' :: newline 1 ++ '"' :: entryTail next
              (prettyEntries 1 (fields.map WrittenField.entry) ++ (newline 0 ++ '}' :: rest)) := by
        simp [prettyEntries, WrittenField.entry, entryTail, quoted]
      rw [htext, entries_next (hwrites field List.mem_cons_self) (hseen field List.mem_cons_self)]
      have hdifferent := List.nodup_cons.mp hnames
      refine ih (fun f hf => hwrites f (List.mem_cons_of_mem _ hf)) hdifferent.2 ?_
        (by simpa using hsteps) (field.assign record)
      intro f hf hmem
      rcases List.mem_cons.mp hmem with hsame | hseen'
      · exact hdifferent.1 (hsame ▸ List.mem_map_of_mem hf)
      · exact hseen f (List.mem_cons_of_mem _ hf) hseen'

/-! ## records -/

/-- Written entries are at least as long as there are entries, so the reader has steps for all. -/
theorem length_le_prettyEntries (level : Nat) (es : List (String × Value)) :
    es.length ≤ (prettyEntries level es).length := by
  induction es with
  | nil => exact Nat.le_refl 0
  | cons e es ih =>
      simp only [prettyEntries, List.length_append, List.length_cons]
      omega

/-- **Records read back.** A mapping of values that different fields are written by is read as the
default record with these fields assigned. -/
theorem ofText_pretty {fields : List (WrittenField α)} (hwrites : ∀ f ∈ fields, format.Writes f)
    (hnames : (fields.map WrittenField.name).Nodup) :
    format.ofText (Value.object (fields.map WrittenField.entry)).pretty =
      .ok (WrittenField.assignAll fields format.default) := by
  have hrecord : format.record ((Value.object (fields.map WrittenField.entry)).prettyChars 0) =
      .ok (WrittenField.assignAll fields format.default, []) := by
    cases fields with
    | nil => rfl
    | cons field fields =>
        have htext : (Value.object ((field :: fields).map WrittenField.entry)).prettyChars 0 =
            '{' :: (newline 1 ++ '"' :: entryTail field
              (prettyEntries 1 (fields.map WrittenField.entry) ++ (newline 0 ++ ['}']))) := by
          simp [Value.prettyChars, WrittenField.entry, entryTail, quoted]
        have hopen (cs : List Char) : skipGaps ('{' :: cs) = '{' :: cs := rfl
        have hquote (cs : List Char) : skipGaps (newline 1 ++ '"' :: cs) = '"' :: cs := rfl
        rw [htext, record, hopen]
        simp only [hquote]
        refine entries_eq hwrites hnames (fun f _ => List.not_mem_nil) ?_ format.default []
        have hlength := length_le_prettyEntries 1 (fields.map WrittenField.entry)
        simp only [stepsFor, entryTail, List.length_append, List.length_cons, List.length_map] at *
        omega
  rw [ofText, fromText, Value.pretty, String.toList_ofList, hrecord]
  rfl

end RecordFormat

end Runbook

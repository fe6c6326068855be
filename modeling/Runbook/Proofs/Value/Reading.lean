import Runbook.Value.Reading
import Runbook.Value.Writing
import Mathlib.Data.List.Basic
import Mathlib.Data.List.TakeWhile

/-!
# Runbook.Proofs.Value.Reading

Scalars that are written read back. A quoted string reads as the string (`string_quoted`), and the
decimal text of an integer in the range of the format as the integer (`number_integerText`), in
front of any text that does not go on with the number.
-/

namespace Runbook.Reading

/-! ## strings -/

/-- Two hexadecimal digits behind two zeros are read back. -/
theorem hexFour?_hexPair :
    ∀ n < 32, hexFour? '0' '0' (Nat.digitChar (n / 16)) (Nat.digitChar (n % 16)) = some n := by
  decide

/-- A control character reads back from its four digits. -/
theorem hexChar_hexPair {c : Char} (hc : c.toNat < 32) (tail : List Char) :
    hexChar ('0' :: '0' :: (hexPair c.toNat ++ tail)) = .ok (c, tail) := by
  have hfour := hexFour?_hexPair c.toNat hc
  simp only [hexPair, List.cons_append, List.nil_append, hexChar, hfour]
  rw [if_neg (by omega), if_neg (by omega), Char.ofNat_toNat]

/-- A backslash and a letter are read as the character they stand for. -/
theorem stringFrom_letter {e c : Char} (hc : escaped? e = some c) (read : List Char) (steps : Nat)
    (tail : List Char) :
    stringFrom read (steps + 1) ('\\' :: e :: tail) = stringFrom (c :: read) steps tail := by
  have he : e ≠ 'u' := by rintro rfl; contradiction
  simp [stringFrom, hc]

/-- An escaped character reads back as the character. -/
theorem stringFrom_escapeChar (read : List Char) (steps : Nat) (c : Char) (tail : List Char) :
    stringFrom read (steps + 1) (escapeChar c ++ tail) = stringFrom (c :: read) steps tail := by
  unfold escapeChar
  -- one case for each escape, in the order in which the writer tries them
  by_cases hquote : c = '"'
  · subst hquote
    exact stringFrom_letter (by decide) read steps tail
  rw [if_neg hquote]
  by_cases hslash : c = '\\'
  · subst hslash
    exact stringFrom_letter (by decide) read steps tail
  rw [if_neg hslash]
  by_cases hline : c = '\n'
  · subst hline
    exact stringFrom_letter (by decide) read steps tail
  rw [if_neg hline]
  by_cases htab : c = '\t'
  · subst htab
    exact stringFrom_letter (by decide) read steps tail
  rw [if_neg htab]
  by_cases hreturn : c = '\r'
  · subst hreturn
    exact stringFrom_letter (by decide) read steps tail
  rw [if_neg hreturn]
  by_cases hback : c.toNat = 8
  · have hc : c = Char.ofNat 8 := by rw [← hback, Char.ofNat_toNat]
    subst hc
    exact stringFrom_letter (by decide) read steps tail
  rw [if_neg hback]
  by_cases hfeed : c.toNat = 12
  · have hc : c = Char.ofNat 12 := by rw [← hfeed, Char.ofNat_toNat]
    subst hc
    exact stringFrom_letter (by decide) read steps tail
  rw [if_neg hfeed]
  by_cases hcontrol : c.toNat < 32
  · have hchar := hexChar_hexPair hcontrol tail
    simp [hcontrol, stringFrom, hchar]
  · simp [hcontrol, stringFrom, hquote, hslash]

/-- Escaped characters are read back up to the closing quote. -/
theorem stringFrom_escaped {cs : List Char} {steps : Nat} (hsteps : cs.length < steps)
    (read rest : List Char) :
    stringFrom read steps (cs.flatMap escapeChar ++ '"' :: rest) =
      .ok (String.ofList (read.reverse ++ cs), rest) := by
  induction cs generalizing read steps with
  | nil =>
      cases steps with
      | zero => contradiction
      | succ steps => simp [stringFrom]
  | cons c cs ih =>
      cases steps with
      | zero => contradiction
      | succ steps =>
          have hsteps' : cs.length < steps := by simpa using hsteps
          rw [List.flatMap_cons, List.append_assoc, stringFrom_escapeChar, ih hsteps']
          simp

/-- Escaping makes no text shorter. -/
theorem length_le_escaped (cs : List Char) : cs.length ≤ (cs.flatMap escapeChar).length := by
  induction cs with
  | nil => simp
  | cons c cs ih =>
      have hc : 1 ≤ (escapeChar c).length := by
        unfold escapeChar
        repeat' split
        all_goals simp
      simp only [List.flatMap_cons, List.length_append, List.length_cons]
      omega

/-- A quoted string reads back, from behind its opening quote. -/
theorem string_quoted (s : String) (rest : List Char) :
    string (s.toList.flatMap escapeChar ++ '"' :: rest) = .ok (s, rest) := by
  have hlength := length_le_escaped s.toList
  unfold string
  rw [stringFrom_escaped (by simp only [List.length_append, List.length_cons]; omega)]
  simp

/-- A pair of surrogates is read off the front of the text. -/
theorem exists_of_pairedChar {high : Nat} {cs rest : List Char} {c : Char}
    (h : pairedChar high cs = .ok (c, rest)) : ∃ pre, cs = pre ++ rest := by
  unfold pairedChar at h
  split at h
  · contradiction
  · contradiction
  · next a b c d tail =>
      split at h
      · unfold hexFault at h
        split at h <;> contradiction
      · split at h
        · simp only [Except.ok.injEq, Prod.mk.injEq] at h
          exact ⟨['\\', 'u', a, b, c, d], by rw [← h.2]; rfl⟩
        · contradiction
  · unfold hexFault at h
    split at h <;> contradiction
  · contradiction
  · contradiction

/-- So is a single one. -/
theorem exists_of_hexChar {cs rest : List Char} {c : Char} (h : hexChar cs = .ok (c, rest)) :
    ∃ pre, cs = pre ++ rest := by
  unfold hexChar at h
  split at h
  · next a b c d tail =>
      split at h
      · unfold hexFault at h
        split at h <;> contradiction
      · split at h
        · contradiction
        · split at h
          · obtain ⟨pre, rfl⟩ := exists_of_pairedChar h
            exact ⟨a :: b :: c :: d :: pre, rfl⟩
          · simp only [Except.ok.injEq, Prod.mk.injEq] at h
            exact ⟨[a, b, c, d], by rw [← h.2]; rfl⟩
  · unfold hexFault at h
    split at h <;> contradiction

/-- What a string leaves unread stands behind a double quote. -/
theorem exists_of_stringFrom {read : List Char} {steps : Nat} {cs rest : List Char} {s : String}
    (h : stringFrom read steps cs = .ok (s, rest)) : ∃ pre, cs = pre ++ '"' :: rest := by
  induction steps generalizing read cs with
  | zero => contradiction
  | succ steps ih =>
      cases cs with
      | nil => contradiction
      | cons c cs =>
          unfold stringFrom at h
          -- the quote that ends the string, an escape, or a character that stands for itself
          split at h
          · next hquote =>
              cases h
              exact ⟨[], by rw [hquote]; rfl⟩
          · split at h
            · split at h
              · contradiction
              · next tail =>
                  cases hchar : hexChar tail with
                  | error fault => simp [hchar] at h
                  | ok pair =>
                      obtain ⟨d, left⟩ := pair
                      simp only [hchar] at h
                      obtain ⟨pre, rfl⟩ := exists_of_hexChar hchar
                      obtain ⟨more, rfl⟩ := ih h
                      exact ⟨c :: 'u' :: (pre ++ more), by simp⟩
              · next e tail _ =>
                  cases hletter : escaped? e with
                  | none => simp [hletter] at h; contradiction
                  | some d =>
                      simp only [hletter] at h
                      obtain ⟨more, rfl⟩ := ih h
                      exact ⟨c :: e :: more, by simp⟩
            · split at h
              · contradiction
              · obtain ⟨more, rfl⟩ := ih h
                exact ⟨c :: more, by simp⟩

/-! ## integers -/

/-- What may stand behind an integer: anything that does not go on with the number. -/
def EndsNumber (rest : List Char) : Prop :=
  ∀ c, rest.head? = some c → c.isDigit = false ∧ c ≠ '.' ∧ c ≠ 'e' ∧ c ≠ 'E'

/-- More digits make no number smaller. -/
theorem le_ofDigitChars (cs : List Char) (start : Nat) :
    start ≤ Nat.ofDigitChars 10 cs start := by
  rw [Nat.ofDigitChars_eq_ofDigitChars_zero]
  have hpow : 1 ≤ 10 ^ cs.length := Nat.one_le_pow _ _ (by decide)
  have hmul : 1 * start ≤ 10 ^ cs.length * start := Nat.mul_le_mul_right start hpow
  omega

/-- Digits whose number fits are all taken. -/
theorem fitting_eq {limit start : Nat} {cs : List Char}
    (h : Nat.ofDigitChars 10 cs start < limit) :
    fitting limit start cs = (Nat.ofDigitChars 10 cs start, []) := by
  induction cs generalizing start with
  | nil => simp [fitting]
  | cons c cs ih =>
      rw [Nat.ofDigitChars_cons, Nat.mul_comm] at h
      have hnext : start * 10 + (c.toNat - 48) < limit :=
        Nat.lt_of_le_of_lt (le_ofDigitChars cs _) h
      rw [Nat.ofDigitChars_cons, Nat.mul_comm, fitting]
      simp only [hnext, if_true]
      exact ih h

theorem digitChar_eq_zero : ∀ n < 10, Nat.digitChar n = '0' → n = 0 := by decide

/-- Only zero is written with a zero in front. -/
theorem eq_zero_of_toDigits {n : Nat} {rest : List Char} (h : Nat.toDigits 10 n = '0' :: rest) :
    n = 0 := by
  induction n using Nat.strongRecOn generalizing rest with
  | ind n ih =>
      by_cases hlt : n < 10
      · rw [Nat.toDigits_of_lt_base hlt, List.cons.injEq] at h
        exact digitChar_eq_zero n hlt h.1
      · rw [Nat.toDigits_of_base_le (by decide) (by omega)] at h
        cases hfront : Nat.toDigits 10 (n / 10) with
        | nil => exact absurd hfront Nat.toDigits_ne_nil
        | cons c front =>
            rw [hfront, List.cons_append, List.cons.injEq] at h
            have hzero := ih (n / 10) (by omega) (h.1 ▸ hfront)
            omega

theorem isDigit_of_mem_digits {n : Nat} {c : Char} (hc : c ∈ Text.digits n) : c.isDigit = true :=
  Nat.isDigit_of_mem_toDigits (by decide) (by decide) hc

/-- Behind a number there are no more digits. -/
theorem EndsNumber.takeWhile_eq {rest : List Char} (hrest : EndsNumber rest) :
    rest.takeWhile Char.isDigit = [] := by
  cases rest with
  | nil => rfl
  | cons c rest => simp [(hrest c rfl).1]

theorem EndsNumber.dropWhile_eq {rest : List Char} (hrest : EndsNumber rest) :
    rest.dropWhile Char.isDigit = rest := by
  cases rest with
  | nil => rfl
  | cons c rest => simp [(hrest c rfl).1]

/-- The digits of a number below the limit of a word read back. -/
theorem unsigned_digits {n : Nat} (hn : n < Text.wordLimit) {rest : List Char}
    (hrest : EndsNumber rest) (negative : Bool) :
    unsigned negative (Text.digits n ++ rest) = .ok (whole negative n, rest) := by
  have htake : (Text.digits n ++ rest).takeWhile Char.isDigit = Text.digits n := by
    rw [List.takeWhile_append_of_pos fun c hc => isDigit_of_mem_digits hc, hrest.takeWhile_eq,
      List.append_nil]
  have hdrop : (Text.digits n ++ rest).dropWhile Char.isDigit = rest := by
    rw [List.dropWhile_append_of_pos fun c hc => isDigit_of_mem_digits hc, hrest.dropWhile_eq]
  have hfitting : fitting Text.wordLimit 0 (Text.digits n) = (n, []) := by
    have hvalue : Nat.ofDigitChars 10 (Text.digits n) 0 = n := Nat.ofDigitChars_ten_toDigits
    rw [fitting_eq (by rw [hvalue]; exact hn), hvalue]
  cases hdigits : Text.digits n with
  | nil => exact absurd hdigits Nat.toDigits_ne_nil
  | cons c more =>
      have hc : c.isDigit = true := isDigit_of_mem_digits (n := n) (by rw [hdigits]; simp)
      have hzero : ¬(c = '0' ∧ (more ++ rest).head?.any Char.isDigit = true) := by
        rintro ⟨rfl, hnext⟩
        have hn0 : n = 0 := eq_zero_of_toDigits hdigits
        subst hn0
        have hmore : more = [] := by simpa [Text.digits, eq_comm] using hdigits
        subst hmore
        cases rest with
        | nil => contradiction
        | cons d rest => simp [(hrest d rfl).1] at hnext
      rw [hdigits] at htake hdrop hfitting
      rw [List.cons_append] at htake hdrop ⊢
      simp only [unsigned, hzero, if_false, hc, if_true, htake, hdrop, hfitting]
      cases rest with
      | nil => rfl
      | cons d rest =>
          -- no other branch is for a text that ends a number
          obtain ⟨-, hpoint, hlower, hupper⟩ := hrest d rfl
          split <;> simp_all

/-- The text of an integer in the range of the format reads back. -/
theorem number_integerText {i : Int} (hlower : -(Text.signedLimit : Int) ≤ i)
    (hupper : i < Text.wordLimit) {rest : List Char} (hrest : EndsNumber rest) :
    number (Text.integerText i ++ rest) = .ok (.int i, rest) := by
  unfold Text.integerText
  by_cases hneg : i < 0
  · have hn : i.natAbs < Text.wordLimit := by
      simp only [Text.signedLimit, Text.wordLimit] at *
      omega
    have hwhole : whole true i.natAbs = .int i := by
      have hrange : ¬(i.natAbs = 0 ∨ Text.signedLimit < i.natAbs) := by
        simp only [Text.signedLimit] at *
        omega
      simp only [whole, not_true_eq_false, if_false, hrange]
      congr 1
      omega
    rw [if_pos hneg, List.cons_append, number, unsigned_digits hn hrest, hwhole]
  · have hn : i.natAbs < Text.wordLimit := by omega
    have hwhole : whole false i.natAbs = .int i := by
      simp [whole, Int.natAbs_of_nonneg (Int.not_lt.1 hneg)]
    have hminus : ∀ more, Text.digits i.natAbs ++ rest = '-' :: more → False := by
      intro more hmore
      cases hdigits : Text.digits i.natAbs with
      | nil => exact absurd hdigits Nat.toDigits_ne_nil
      | cons c cs =>
          have hc : c.isDigit = true := isDigit_of_mem_digits (n := i.natAbs) (by simp [hdigits])
          rw [hdigits, List.cons_append, List.cons.injEq] at hmore
          rw [hmore.1] at hc
          contradiction
    rw [if_neg hneg, number.eq_2 _ hminus, unsigned_digits hn hrest, hwhole]

/-! ## values -/

/-- A gap in front of a value is passed over. -/
theorem value_gap {c : Char} (hc : isGap c = true) (depth steps : Nat) (cs : List Char) :
    value depth (steps + 1) (c :: cs) = value depth (steps + 1) cs := by
  have hskip : skipGaps (c :: cs) = skipGaps cs := by simp [skipGaps, hc]
  rw [value, value, hskip]

/-- A quoted string is read back. -/
theorem value_quoted (depth steps : Nat) (s : String) (rest : List Char) :
    value depth (steps + 1) (quoted s ++ rest) = .ok (.string s, rest) := by
  have hgaps : skipGaps (quoted s ++ rest) =
      '"' :: (s.toList.flatMap escapeChar ++ '"' :: rest) := by
    simp [quoted, skipGaps, isGap]
  rw [value, hgaps]
  simp only [string_quoted]
  rfl

/-- A value that starts like a number is one. -/
theorem value_of_number {c : Char} (hc : c = '-' ∨ c.isDigit = true) (depth steps : Nat)
    (cs : List Char) :
    value depth (steps + 1) (c :: cs) =
      (number (c :: cs)).map fun (n, rest) => (.number n, rest) := by
  have hne : ∀ d : Char, d ≠ '-' → d.isDigit = false → c ≠ d := by
    rintro d hminus hdigit rfl
    rcases hc with hc | hc
    · exact hminus hc
    · rw [hdigit] at hc
      contradiction
  have hgap : isGap c = false := by
    have h1 := hne ' ' (by decide) (by decide)
    have h2 := hne '\n' (by decide) (by decide)
    have h3 := hne '\t' (by decide) (by decide)
    have h4 := hne '\r' (by decide) (by decide)
    simp [isGap, h1, h2, h3, h4]
  have hgaps : skipGaps (c :: cs) = c :: cs := by simp [skipGaps, hgap]
  have h1 := hne 'n' (by decide) (by decide)
  have h2 := hne 't' (by decide) (by decide)
  have h3 := hne 'f' (by decide) (by decide)
  have h4 := hne '"' (by decide) (by decide)
  have h5 := hne '[' (by decide) (by decide)
  have h6 := hne '{' (by decide) (by decide)
  rw [value, hgaps]
  split
  case h_8 heq =>
    rw [List.cons.injEq] at heq
    rw [← heq.1, ← heq.2]
    exact if_pos hc
  -- every other branch is for a text that starts with a character of its own
  all_goals simp_all

/-- An integer starts with a digit or a minus. -/
theorem integerText_cons (i : Int) :
    ∃ c cs, Text.integerText i = c :: cs ∧ (c = '-' ∨ c.isDigit = true) := by
  unfold Text.integerText
  split
  · exact ⟨'-', _, rfl, .inl rfl⟩
  · cases hdigits : Text.digits i.natAbs with
    | nil => exact absurd hdigits Nat.toDigits_ne_nil
    | cons c cs =>
        exact ⟨c, cs, rfl, .inr (isDigit_of_mem_digits (n := i.natAbs) (by simp [hdigits]))⟩

/-- An integer within the bounds of its words is read back. -/
theorem value_integerText {i : Int} (hlower : -(Text.signedLimit : Int) ≤ i)
    (hupper : i < Text.wordLimit) (depth steps : Nat) {rest : List Char}
    (hrest : EndsNumber rest) :
    value depth (steps + 1) (Text.integerText i ++ rest) = .ok (.number (.int i), rest) := by
  have hnumber := number_integerText hlower hupper hrest
  obtain ⟨c, cs, htext, hc⟩ := integerText_cons i
  rw [htext, List.cons_append] at hnumber ⊢
  rw [value_of_number hc, hnumber]
  rfl

/-- A text is read as a value if the reader leaves nothing of it. -/
theorem read_eq_ok {cs : List Char} {v : Value}
    (h : value depthLimit (stepsFor cs) cs = .ok (v, [])) :
    Value.read (String.ofList cs) = .ok v := by
  simp [Value.read, fromText, h, alone, skipGaps]

/-- A text that is one quoted string is read as the string. -/
theorem read_quoted (s : String) : Value.read (String.ofList (quoted s)) = .ok (.string s) := by
  have hvalue := value_quoted depthLimit (2 * (quoted s).length + 1) s []
  rw [List.append_nil] at hvalue
  exact read_eq_ok hvalue

/-- A text that is one integer is read as the integer. -/
theorem read_integerText {i : Int} (hlower : -(Text.signedLimit : Int) ≤ i)
    (hupper : i < Text.wordLimit) :
    Value.read (String.ofList (Text.integerText i)) = .ok (.number (.int i)) := by
  have hend : EndsNumber [] := fun c hc => by simp at hc
  have hvalue :=
    value_integerText hlower hupper depthLimit (2 * (Text.integerText i).length + 1) hend
  rw [List.append_nil] at hvalue
  exact read_eq_ok hvalue

/-- A key with its colon reads back, from behind its opening quote. -/
theorem key_quoted (k : String) (rest : List Char) :
    key (k.toList.flatMap escapeChar ++ '"' :: ':' :: rest) = .ok (k, rest) := by
  have hcolon : colon (':' :: rest) = .ok rest := rfl
  simp only [key, string_quoted, bind, Except.bind, hcolon]
  rfl

/-- A mapping of one key to a string reads back. -/
theorem read_entry (k s : String) :
    Value.read (String.ofList ('{' :: (quoted k ++ ':' :: ' ' :: (quoted s ++ ['}'])))) =
      .ok (.object [(k, .string s)]) := by
  have hmembers : ∀ steps, members 126 (steps + 2)
      (k.toList.flatMap escapeChar ++ '"' :: ':' :: ' ' :: (quoted s ++ ['}'])) =
        .ok ([(k, .string s)], []) := by
    intro steps
    have hvalue : value 126 (steps + 1) (' ' :: (quoted s ++ ['}'])) = .ok (.string s, ['}']) := by
      rw [value_gap rfl, value_quoted]
    have hclose : skipGaps ['}'] = ['}'] := rfl
    simp only [members, key_quoted, hvalue, bind, Except.bind, hclose]
    rfl
  have hopen : ∀ rest, skipGaps ('{' :: rest) = '{' :: rest := fun rest => rfl
  have hquote : skipGaps (quoted k ++ ':' :: ' ' :: (quoted s ++ ['}'])) =
      '"' :: (k.toList.flatMap escapeChar ++ '"' :: ':' :: ' ' :: (quoted s ++ ['}'])) := by
    simp [quoted, skipGaps, isGap]
  refine read_eq_ok ?_
  -- the brace takes one step, and the key and the string two more
  obtain ⟨steps, hsteps⟩ :
      ∃ steps, stepsFor ('{' :: (quoted k ++ ':' :: ' ' :: (quoted s ++ ['}']))) = steps + 3 :=
    ⟨_, rfl⟩
  rw [hsteps, value, hopen]
  simp only [depthLimit, hquote, hmembers]
  rfl

/-! ## what a string value tells of its text -/

theorem exists_of_map_eq_ok {ε α β : Type} {result : Except ε α} {f : α → β} {b : β}
    (h : result.map f = .ok b) : ∃ a, result = .ok a ∧ f a = b := by
  cases result with
  | error e => contradiction
  | ok a =>
      cases h
      exact ⟨a, rfl, rfl⟩

/-- Only a double quote starts a string. -/
theorem string_of_value {depth steps : Nat} {cs rest : List Char} {s : String}
    (h : value depth (steps + 1) cs = .ok (.string s, rest)) :
    ∃ tail, skipGaps cs = '"' :: tail ∧ string tail = .ok (s, rest) := by
  rw [value] at h
  split at h
  case h_5 tail hgaps =>
    obtain ⟨⟨s', rest'⟩, hstring, heq⟩ := exists_of_map_eq_ok h
    cases heq
    exact ⟨tail, hgaps, hstring⟩
  case h_6 =>
    split at h
    · contradiction
    · split at h
      · contradiction
      · cases h
      · obtain ⟨items, -, heq⟩ := exists_of_map_eq_ok h
        cases heq
  case h_7 =>
    split at h
    · contradiction
    · split at h
      · contradiction
      · cases h
      · obtain ⟨entries, -, heq⟩ := exists_of_map_eq_ok h
        cases heq
      · contradiction
  case h_8 =>
    split at h
    · obtain ⟨n, -, heq⟩ := exists_of_map_eq_ok h
      cases heq
    · contradiction
  case h_1 => contradiction
  all_goals
    obtain ⟨tail, -, heq⟩ := exists_of_map_eq_ok h
    cases heq

/-- Nothing but gaps is left behind a whole text. -/
theorem of_alone_eq_ok {α : Type} {reading : Reading α} {x : α} (h : alone reading = .ok x) :
    ∃ rest, reading = .ok (x, rest) ∧ skipGaps rest = [] := by
  unfold alone at h
  split at h
  · contradiction
  · next rest =>
      split at h
      · next hgaps =>
          cases h
          exact ⟨rest, rfl, hgaps⟩
      · contradiction

/-- A text that is read as a string ends with a double quote and gaps. -/
theorem getLast?_of_read_string {cs : List Char} {s : String}
    (h : Value.read (String.ofList cs) = .ok (.string s)) :
    ∃ c, cs.getLast? = some c ∧ (c = '"' ∨ isGap c = true) := by
  have halone : alone (value depthLimit (stepsFor cs) cs) = .ok (.string s) := by
    simp only [Value.read, fromText, String.toList_ofList] at h
    split at h
    · next hok => rwa [Except.ok.injEq, ← h] at *
    · contradiction
  obtain ⟨rest, hvalue, hrest⟩ := of_alone_eq_ok halone
  obtain ⟨tail, hgaps, hstring⟩ := string_of_value hvalue
  obtain ⟨pre, hpre⟩ := exists_of_stringFrom hstring
  have hcs : cs = cs.takeWhile isGap ++ ('"' :: pre) ++ ('"' :: rest) := by
    have hsplit : cs.takeWhile isGap ++ skipGaps cs = cs := List.takeWhile_append_dropWhile
    rw [hgaps, hpre] at hsplit
    simpa using hsplit.symm
  rw [hcs]
  cases hlast : rest.getLast? with
  | none =>
      have hnil : rest = [] := List.getLast?_eq_none_iff.1 hlast
      exact ⟨'"', by rw [hnil, List.getLast?_append]; rfl, .inl rfl⟩
  | some c =>
      have hall : ∀ d ∈ rest, isGap d = true := List.dropWhile_eq_nil_iff.1 hrest
      refine ⟨c, ?_, .inr (hall c (List.mem_of_getLast? hlast))⟩
      simp [List.getLast?_append, List.getLast?_cons, hlast]

end Runbook.Reading

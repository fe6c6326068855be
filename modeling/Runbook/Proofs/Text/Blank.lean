import Runbook.Text.Blank
import Mathlib.Data.List.Basic
import Mathlib.Data.List.TakeWhile

/-!
# Runbook.Proofs.Text.Blank

What trimming does to a text. A text is solid if it is not empty and has no blank at either end
(`Text.Solid`): trimming takes the blanks off around it and nothing else (`trim_padded`), and what
is left of any text is solid or empty (`trim_solid`).
-/

namespace Runbook.Text

/-- A text that is not empty and has no blank at its ends. -/
structure Solid (cs : List Char) : Prop where
  starts : ∃ c rest, cs = c :: rest ∧ isBlank c = false
  ends : ∃ rest c, cs = rest ++ [c] ∧ isBlank c = false

/-- A text of blanks only. -/
def Blanks (cs : List Char) : Prop := ∀ c ∈ cs, isBlank c = true

theorem blanks_nil : Blanks [] := fun c hc => by simp at hc

theorem blanks_space : Blanks [' '] := fun c hc => by
  rw [List.mem_singleton.1 hc]
  decide

/-! ## characters by their codes -/

/-- What holds of all codes below a bound holds of the characters with these codes. -/
theorem of_toNat_lt {P : Char → Prop} {bound : Nat} (h : ∀ n < bound, P (Char.ofNat n)) {c : Char}
    (hc : c.toNat < bound) : P c := by
  have hchar := h c.toNat hc
  rwa [Char.ofNat_toNat] at hchar

/-- The codes of the blanks. -/
def blankCodes : List Nat := blankRanges.flatMap fun r => List.range' r.1 (r.2 + 1 - r.1)

/-- What holds of the codes of the blanks holds of every blank. -/
theorem of_isBlank {P : Char → Prop} (h : ∀ n ∈ blankCodes, P (Char.ofNat n)) {c : Char}
    (hc : isBlank c = true) : P c := by
  have hcode : c.toNat ∈ blankCodes := by
    obtain ⟨r, hr, hin⟩ := List.any_eq_true.mp hc
    simp only [Bool.and_eq_true, decide_eq_true_eq] at hin
    refine List.mem_flatMap.mpr ⟨r, hr, List.mem_range'_1.mpr ?_⟩
    omega
  have hchar := h c.toNat hcode
  rwa [Char.ofNat_toNat] at hchar

/-- A digit is no blank. -/
theorem isBlank_of_isDigit {c : Char} (hc : c.isDigit = true) : isBlank c = false := by
  cases hblank : isBlank c with
  | false => rfl
  | true =>
      have hdigit : c.isDigit = false :=
        of_isBlank (P := fun c => c.isDigit = false) (by decide) hblank
      rw [hc] at hdigit
      contradiction

/-! ## trimming one end -/

/-- Blanks at the front do not count. -/
theorem trimStart_blanks {pre : List Char} (hpre : Blanks pre) (cs : List Char) :
    trimStart (pre ++ cs) = trimStart cs := by
  induction pre with
  | nil => rfl
  | cons c pre ih =>
      have hc : isBlank c = true := hpre c (by simp)
      have hrest : Blanks pre := fun d hd => hpre d (by simp [hd])
      simp only [trimStart, List.cons_append, List.dropWhile_cons, hc, if_true]
      exact ih hrest

/-- A text that starts with no blank is left alone at its front. -/
theorem trimStart_cons {c : Char} (hc : isBlank c = false) (cs : List Char) :
    trimStart (c :: cs) = c :: cs := by
  simp [trimStart, hc]

theorem trimEnd_blanks {post : List Char} (hpost : Blanks post) : trimEnd post = [] := by
  induction post with
  | nil => rfl
  | cons c post ih =>
      have hc : isBlank c = true := hpost c (by simp)
      simp [trimEnd, ih fun d hd => hpost d (by simp [hd]), hc]

/-- Blanks at the end do not count. -/
theorem trimEnd_append_blanks (cs : List Char) {post : List Char} (hpost : Blanks post) :
    trimEnd (cs ++ post) = trimEnd cs := by
  induction cs with
  | nil => simpa [trimEnd] using trimEnd_blanks hpost
  | cons c cs ih => simp only [List.cons_append, trimEnd, ih]

/-- A text that ends with no blank is left alone at its end. -/
theorem trimEnd_concat (cs : List Char) {c : Char} (hc : isBlank c = false) :
    trimEnd (cs ++ [c]) = cs ++ [c] := by
  induction cs with
  | nil => simp [trimEnd, hc]
  | cons d cs ih =>
      have hne : cs ++ [c] ≠ [] := by simp
      simp only [List.cons_append, trimEnd, ih]

/-- What is left ends with no blank. -/
theorem trimEnd_nil_or_ends (cs : List Char) :
    trimEnd cs = [] ∨ ∃ rest c, trimEnd cs = rest ++ [c] ∧ isBlank c = false := by
  induction cs with
  | nil => exact .inl rfl
  | cons c cs ih =>
      rw [trimEnd]
      rcases ih with hnil | ⟨rest, d, hrest, hd⟩
      · rw [hnil]
        cases hc : isBlank c with
        | true => exact .inl (by simp)
        | false => exact .inr ⟨[], c, by simp, hc⟩
      · refine .inr ⟨c :: rest, d, ?_, hd⟩
        rw [hrest]
        cases rest <;> rfl

/-- Trimming the end leaves a first character in place, unless it is blank. -/
theorem trimEnd_cons {c : Char} (hc : isBlank c = false) (cs : List Char) :
    ∃ rest, trimEnd (c :: cs) = c :: rest := by
  rw [trimEnd]
  cases trimEnd cs with
  | nil => exact ⟨[], by simp [hc]⟩
  | cons d rest => exact ⟨d :: rest, rfl⟩

/-! ## trimming both ends -/

/-- Blanks around a solid text are all that trimming takes off. -/
theorem trim_padded {pre cs post : List Char} (hpre : Blanks pre) (hpost : Blanks post)
    (h : Solid cs) :
    trim (pre ++ (cs ++ post)) = cs := by
  obtain ⟨c, rest, hcs, hc⟩ := h.starts
  obtain ⟨front, d, hcs', hd⟩ := h.ends
  have hstart : trimStart (cs ++ post) = cs ++ post := by
    rw [hcs, List.cons_append, trimStart_cons hc]
  rw [trim, trimStart_blanks hpre, hstart, trimEnd_append_blanks cs hpost, hcs',
    trimEnd_concat front hd]

/-- A text without outer blanks is left alone. -/
theorem Solid.trim_eq {cs : List Char} (h : Solid cs) : trim cs = cs := by
  simpa using trim_padded blanks_nil blanks_nil h

/-- What trimming leaves is solid, if it leaves anything. -/
theorem trim_solid (cs : List Char) : trim cs = [] ∨ Solid (trim cs) := by
  cases hstart : trimStart cs with
  | nil => exact .inl (by simp [trim, hstart, trimEnd])
  | cons c rest =>
      have hc : isBlank c = false := by
        have hhead := List.head?_dropWhile_not isBlank cs
        unfold trimStart at hstart
        rw [hstart] at hhead
        simpa using hhead
      rcases trimEnd_nil_or_ends (c :: rest) with hnil | hends
      · exact .inl (by rw [trim, hstart, hnil])
      · obtain ⟨more, hmore⟩ := trimEnd_cons hc rest
        refine .inr ⟨⟨c, more, by rw [trim, hstart, hmore], hc⟩, ?_⟩
        rwa [trim, hstart]

/-- Trimming twice is trimming once. -/
theorem trim_trim (cs : List Char) : trim (trim cs) = trim cs := by
  rcases trim_solid cs with hnil | hsolid
  · rw [hnil]
    rfl
  · exact hsolid.trim_eq

/-- Only blanks are cut off the end. -/
theorem exists_trimEnd_append (cs : List Char) :
    ∃ post, Blanks post ∧ cs = trimEnd cs ++ post := by
  induction cs with
  | nil => exact ⟨[], blanks_nil, rfl⟩
  | cons c cs ih =>
      obtain ⟨post, hpost, hcs⟩ := ih
      rw [trimEnd]
      cases hkept : trimEnd cs with
      | cons d kept => exact ⟨post, hpost, by rw [hkept] at hcs; simp [hcs]⟩
      | nil =>
          rw [hkept, List.nil_append] at hcs
          cases hc : isBlank c with
          | false => exact ⟨post, hpost, by simp [hcs]⟩
          | true =>
              refine ⟨c :: post, fun d hd => ?_, by simp [hcs]⟩
              rcases List.mem_cons.1 hd with rfl | hd
              · exact hc
              · exact hpost d hd

/-- A text is what trimming leaves and blanks around it. -/
theorem exists_padding (cs : List Char) :
    ∃ pre post, Blanks pre ∧ Blanks post ∧ cs = pre ++ (trim cs ++ post) := by
  obtain ⟨post, hpost, hstart⟩ := exists_trimEnd_append (trimStart cs)
  refine ⟨cs.takeWhile isBlank, post, ?_, hpost, ?_⟩
  · intro c hc
    exact List.mem_takeWhile_imp hc
  · have hsplit : cs.takeWhile isBlank ++ trimStart cs = cs := List.takeWhile_append_dropWhile
    rw [trim, ← hstart, hsplit]

/-- The trimmed text stands in the text. -/
theorem infix_trim (cs : List Char) : trim cs <:+: cs := by
  obtain ⟨pre, post, -, -, hcs⟩ := exists_padding cs
  exact ⟨pre, post, by rw [List.append_assoc, ← hcs]⟩

/-- Nothing is left of blanks, and of no other text. -/
theorem trim_eq_nil_iff {cs : List Char} : trim cs = [] ↔ Blanks cs := by
  constructor
  · intro hnil
    obtain ⟨pre, post, hpre, hpost, hcs⟩ := exists_padding cs
    rw [hnil, List.nil_append] at hcs
    intro c hc
    rw [hcs] at hc
    exact (List.mem_append.mp hc).elim (hpre c) (hpost c)
  · intro hblank
    rcases trim_solid cs with hnil | hsolid
    · exact hnil
    · have hstart := trimStart_blanks hblank []
      rw [List.append_nil] at hstart
      rw [trim, hstart]
      rfl

/-- Trimming brings no character in. -/
theorem mem_of_mem_trim {c : Char} {cs : List Char} (h : c ∈ trim cs) : c ∈ cs := by
  obtain ⟨pre, post, -, -, hcs⟩ := exists_padding cs
  rw [hcs]
  simp [h]

/-! ## solid texts -/

theorem Solid.ne_nil {cs : List Char} (h : Solid cs) : cs ≠ [] := by
  obtain ⟨c, rest, rfl, -⟩ := h.starts
  simp

theorem Solid.isEmpty_eq {cs : List Char} (h : Solid cs) : cs.isEmpty = false := by
  simpa using h.ne_nil

/-- A text without blanks has none at its ends. -/
theorem solid_of_forall {cs : List Char} (hne : cs ≠ []) (h : ∀ c ∈ cs, isBlank c = false) :
    Solid cs := by
  constructor
  · cases cs with
    | nil => contradiction
    | cons c rest => exact ⟨c, rest, rfl, h c (by simp)⟩
  · refine ⟨cs.dropLast, cs.getLast hne, (List.dropLast_append_getLast hne).symm, ?_⟩
    exact h _ (List.getLast_mem hne)

/-- Two solid texts with anything between them are one. -/
theorem solid_enclosed {o c : Char} (ho : isBlank o = false) (hc : isBlank c = false)
    (cs : List Char) : Solid (o :: (cs ++ [c])) :=
  ⟨⟨o, cs ++ [c], rfl, ho⟩, ⟨o :: cs, c, rfl, hc⟩⟩

/-- Blanks in the middle are no outer blanks. -/
theorem Solid.append {first last : List Char} (hfirst : Solid first) (hlast : Solid last)
    (between : List Char) : Solid (first ++ (between ++ last)) := by
  obtain ⟨c, rest, rfl, hc⟩ := hfirst.starts
  obtain ⟨front, d, rfl, hd⟩ := hlast.ends
  exact ⟨⟨c, _, rfl, hc⟩, ⟨c :: rest ++ (between ++ front), d, by simp, hd⟩⟩

end Runbook.Text

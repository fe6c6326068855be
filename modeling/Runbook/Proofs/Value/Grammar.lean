import Runbook.Proofs.Text.Numeral
import Runbook.Proofs.Value.Reading

/-!
# Runbook.Proofs.Value.Grammar

What a data text is, as a grammar (`Spells`). Next to the texts of values there are those of the
items between two brackets and of the members between two braces, which tell the keys in order.
Every number is written as the grammar has it (`numberText_chars`), and so is every string
(`stringBody_escaped`).
-/

namespace Runbook

/-! ## gaps, numbers and strings -/

/-- Blanks between the tokens of a data text. -/
def Gaps (cs : List Char) : Prop := ∀ c ∈ cs, Reading.isGap c = true

/-- The integer part of a number, without leading zeros. -/
def WholeText (cs : List Char) : Prop := DigitText cs ∧ (cs.head? = some '0' → cs = ['0'])

/-- The decimal places, if there are any. -/
inductive FractionText : List Char → Prop
  | none : FractionText []
  | places {cs : List Char} (h : DigitText cs) : FractionText ('.' :: cs)

/-- The exponent, if there is one. -/
inductive ExponentText : List Char → Prop
  | none : ExponentText []
  | plain {c : Char} {cs : List Char} (hc : c = 'e' ∨ c = 'E') (h : DigitText cs) :
      ExponentText (c :: cs)
  | signed {c sign : Char} {cs : List Char} (hc : c = 'e' ∨ c = 'E')
      (hsign : sign = '+' ∨ sign = '-') (h : DigitText cs) : ExponentText (c :: sign :: cs)

/-- The text of a number without a sign. -/
inductive UnsignedText : List Char → Prop
  | mk {whole fraction exponent : List Char} (hwhole : WholeText whole)
      (hfraction : FractionText fraction) (hexponent : ExponentText exponent) :
      UnsignedText (whole ++ fraction ++ exponent)

/-- The text of a number. -/
inductive NumberText : List Char → Prop
  | unsigned {cs : List Char} (h : UnsignedText cs) : NumberText cs
  | negative {cs : List Char} (h : UnsignedText cs) : NumberText ('-' :: cs)

/-- A hexadecimal digit. -/
def IsHexDigit (c : Char) : Prop := c ∈ "0123456789abcdefABCDEF".toList

/-- The text of one character in a string. -/
inductive CharacterText : List Char → Prop
  | plain {c : Char} (hquote : c ≠ '"') (hescape : c ≠ '\\') (hcontrol : 32 ≤ c.toNat) :
      CharacterText [c]
  | letter {c : Char} (hc : c ∈ "\"\\/bfnrt".toList) : CharacterText ['\\', c]
  | code {a b c d : Char} (ha : IsHexDigit a) (hb : IsHexDigit b) (hc : IsHexDigit c)
      (hd : IsHexDigit d) : CharacterText ['\\', 'u', a, b, c, d]

/-- What stands between the quotes of a string. -/
inductive StringBody : List Char → Prop
  | nil : StringBody []
  | cons {first rest : List Char} (hfirst : CharacterText first) (hrest : StringBody rest) :
      StringBody (first ++ rest)

/-- The text of a string. -/
def StringText (cs : List Char) : Prop := ∃ body, cs = '"' :: body ++ ['"'] ∧ StringBody body

/-! ## values -/

/-- What a text can spell. -/
inductive Category where
  /-- A value. -/
  | value
  /-- The items of a list that is not empty. -/
  | items
  /-- The members of a mapping that is not empty, by the texts of their keys. -/
  | members (keys : List (List Char))

/-- The grammar of data texts. -/
inductive Spells : Category → List Char → Prop
  | null : Spells .value "null".toList
  | bool (b : Bool) : Spells .value (Value.boolText b)
  | number {cs : List Char} (h : NumberText cs) : Spells .value cs
  | string {cs : List Char} (h : StringText cs) : Spells .value cs
  | emptyList {gap : List Char} (hgap : Gaps gap) : Spells .value ('[' :: gap ++ [']'])
  | list {cs : List Char} (h : Spells .items cs) : Spells .value ('[' :: cs ++ [']'])
  | emptyMapping {gap : List Char} (hgap : Gaps gap) : Spells .value ('{' :: gap ++ ['}'])
  | mapping {keys : List (List Char)} {cs : List Char} (h : Spells (.members keys) cs) :
      Spells .value ('{' :: cs ++ ['}'])
  | lastItem {before cs after : List Char} (hbefore : Gaps before) (h : Spells .value cs)
      (hafter : Gaps after) : Spells .items (before ++ cs ++ after)
  | nextItem {before cs after rest : List Char} (hbefore : Gaps before) (h : Spells .value cs)
      (hafter : Gaps after) (hrest : Spells .items rest) :
      Spells .items (before ++ cs ++ after ++ ',' :: rest)
  | lastMember {before key behind colon cs after : List Char} (hbefore : Gaps before)
      (hkey : StringText key) (hbehind : Gaps behind) (hcolon : Gaps colon)
      (h : Spells .value cs) (hafter : Gaps after) :
      Spells (.members [key]) (before ++ key ++ behind ++ ':' :: colon ++ cs ++ after)
  | nextMember {before key behind colon cs after rest : List Char} {keys : List (List Char)}
      (hbefore : Gaps before) (hkey : StringText key) (hbehind : Gaps behind) (hcolon : Gaps colon)
      (h : Spells .value cs) (hafter : Gaps after) (hrest : Spells (.members keys) rest) :
      Spells (.members (key :: keys))
        (before ++ key ++ behind ++ ':' :: colon ++ cs ++ after ++ ',' :: rest)

/-- The characters of a number. -/
theorem UnsignedText.mem {cs : List Char} (h : UnsignedText cs) {c : Char} (hc : c ∈ cs) :
    c.isDigit = true ∨ c ∈ "-+.eE".toList := by
  obtain ⟨hwhole, hfraction, hexponent⟩ := h
  rcases List.mem_append.mp hc with hc | hc
  · rcases List.mem_append.mp hc with hc | hc
    · exact .inl (hwhole.1.2 c hc)
    · cases hfraction with
      | none => simp at hc
      | places h =>
          rcases List.mem_cons.mp hc with rfl | hc
          · exact .inr (by decide)
          · exact .inl (h.2 c hc)
  · cases hexponent with
    | none => simp at hc
    | plain hletter h =>
        rcases List.mem_cons.mp hc with rfl | hc
        · exact .inr (by rcases hletter with rfl | rfl <;> decide)
        · exact .inl (h.2 c hc)
    | signed hletter hsign h =>
        rcases List.mem_cons.mp hc with rfl | hc
        · exact .inr (by rcases hletter with rfl | rfl <;> decide)
        rcases List.mem_cons.mp hc with rfl | hc
        · exact .inr (by rcases hsign with rfl | rfl <;> decide)
        · exact .inl (h.2 c hc)

/-- The characters of a number. -/
theorem NumberText.mem {cs : List Char} (h : NumberText cs) {c : Char} (hc : c ∈ cs) :
    c.isDigit = true ∨ c ∈ "-+.eE".toList := by
  cases h with
  | unsigned h => exact h.mem hc
  | negative h =>
      rcases List.mem_cons.mp hc with rfl | hc
      · exact .inr (by decide)
      · exact h.mem hc

/-! ## strings as they are written -/

/-- One character is the body of a string. -/
theorem CharacterText.body {cs : List Char} (h : CharacterText cs) : StringBody cs := by
  simpa using StringBody.cons h .nil

/-- So are two bodies in a row. -/
theorem StringBody.append {first second : List Char} (hfirst : StringBody first)
    (hsecond : StringBody second) : StringBody (first ++ second) := by
  induction hfirst with
  | nil => exact hsecond
  | cons hunit _ ih => exact List.append_assoc .. ▸ .cons hunit ih

/-- A text without quotes, backslashes and control characters stands for itself. -/
theorem stringBody_of_forall {cs : List Char}
    (h : ∀ c ∈ cs, c ≠ '"' ∧ c ≠ '\\' ∧ 32 ≤ c.toNat) : StringBody cs := by
  induction cs with
  | nil => exact .nil
  | cons c cs ih =>
      obtain ⟨hquote, hescape, hcontrol⟩ := h c List.mem_cons_self
      exact .cons (.plain hquote hescape hcontrol) (ih fun d hd => h d (List.mem_cons_of_mem _ hd))

theorem isHexDigit_hexPair : ∀ n < 32, ∀ c ∈ hexPair n, IsHexDigit c := by
  unfold IsHexDigit
  decide

/-- A character is written as one of the grammar, escaped or as it is. -/
theorem characterText_escapeChar (c : Char) : CharacterText (escapeChar c) := by
  unfold escapeChar
  repeat' split
  all_goals first
    | exact .letter (by decide)
    | skip
  · next hcontrol =>
      have hdigits := isHexDigit_hexPair c.toNat hcontrol
      simp only [hexPair, List.mem_cons, List.not_mem_nil, or_false, forall_eq_or_imp,
        forall_eq] at hdigits
      have hzero : IsHexDigit '0' := by unfold IsHexDigit; decide
      exact .code hzero hzero hdigits.1 hdigits.2
  · next hquote hescape _ _ _ _ _ hcontrol => exact .plain hquote hescape (by omega)

/-- Escaped characters are the body of a string. -/
theorem stringBody_escaped (cs : List Char) : StringBody (cs.flatMap escapeChar) := by
  induction cs with
  | nil => exact .nil
  | cons c cs ih => exact .cons (characterText_escapeChar c) ih

/-- A quoted string is one of the grammar. -/
theorem stringText_quoted (s : String) : StringText (quoted s) :=
  ⟨_, rfl, stringBody_escaped s.toList⟩

/-! ## numbers as they are written -/

theorem digitText_digits (n : Nat) : DigitText (Text.digits n) :=
  ⟨Nat.toDigits_ne_nil, fun _ hc => Reading.isDigit_of_mem_digits hc⟩

/-- Written digits have no zero in front, unless they are the zero. -/
theorem wholeText_digits (n : Nat) : WholeText (Text.digits n) := by
  refine ⟨digitText_digits n, fun hhead => ?_⟩
  cases hdigits : Text.digits n with
  | nil => simp [hdigits] at hhead
  | cons c cs =>
      obtain rfl : c = '0' := by simpa [hdigits] using hhead
      have hzero := Reading.eq_zero_of_toDigits hdigits
      subst hzero
      exact hdigits.symm.trans rfl

/-- The digits of a number other than zero start with no zero. -/
theorem head?_digits_ne {n : Nat} (hn : n ≠ 0) : (Text.digits n).head? ≠ some '0' := by
  intro hhead
  cases hdigits : Text.digits n with
  | nil => simp [hdigits] at hhead
  | cons c cs =>
      obtain rfl : c = '0' := by simpa [hdigits] using hhead
      exact hn (Reading.eq_zero_of_toDigits hdigits)

theorem DigitText.append {first second : List Char} (hfirst : DigitText first)
    (hsecond : ∀ c ∈ second, c.isDigit = true) : DigitText (first ++ second) := by
  refine ⟨by simp [hfirst.1], fun c hc => ?_⟩
  exact (List.mem_append.mp hc).elim (hfirst.2 c) (hsecond c)

theorem isDigit_of_mem_replicate {n : Nat} {c : Char} (hc : c ∈ List.replicate n '0') :
    c.isDigit = true :=
  List.eq_of_mem_replicate hc ▸ rfl

namespace Double

/-- The lower end of a neighbourhood is not zero. -/
theorem low_pos {code : Nat} (hcode : code ≠ 0) : 0 < (neighbourhood code).low := by
  have hsignificand : 0 < (parts code).1 := by
    simp only [parts]
    split
    · next hfield =>
        have hsplit := Nat.div_add_mod code fractionLimit
        rw [hfield] at hsplit
        simp only
        omega
    · simp only [fractionLimit]
      omega
  unfold neighbourhood
  refine Nat.mul_pos ?_ ?_
  · split <;> omega
  · split
    · decide
    · exact twoTo_pos _

/-- A decimal next to a positive number has digits. -/
theorem Neighbourhood.digits_pos_of_onGrid? {n : Neighbourhood} (hlow : 0 < n.low) {exponent : Int}
    {found : Decimal} (h : n.onGrid? exponent = some found) : 0 < found.digits := by
  have hzero : n.holds 0 exponent = false := by
    have hshift := Nat.mul_pos hlow (tenTo_pos (-exponent).toNat)
    unfold holds
    split
    · simp only [Nat.zero_mul, Bool.and_eq_false_iff, decide_eq_false_iff_not]
      omega
    · simp
  have hholds : n.holds found.digits exponent = true := by
    unfold onGrid? at h
    extract_lets step value floor left right upFirst first second at h
    split at h
    · next hfirst => exact Option.some.inj h ▸ hfirst
    · split at h
      · next hsecond => exact Option.some.inj h ▸ hsecond
      · contradiction
  by_contra hdigits
  obtain hdigits : found.digits = 0 := by omega
  rw [hdigits, hzero] at hholds
  contradiction

/-- The search finds digits other than zero, or gives up on the integers. -/
theorem Neighbourhood.search_pos_or {n : Neighbourhood} (hlow : 0 < n.low) (exponent : Int)
    (fuel : Nat) : 0 < (n.search exponent fuel).digits ∨ (n.search exponent fuel).exponent = 0 := by
  induction fuel generalizing exponent with
  | zero => exact .inr rfl
  | succ fuel ih =>
      unfold search
      split
      · next found hfound => exact .inl (digits_pos_of_onGrid? hlow hfound)
      · exact ih (exponent - 1)

/-- A shortest decimal has digits other than zero, or it is an integer. -/
theorem shortest_pos_or {code : Nat} (hcode : code ≠ 0) :
    0 < (shortest code).digits ∨ (shortest code).exponent = 0 := by
  unfold shortest
  rw [if_neg hcode]
  exact Neighbourhood.search_pos_or (low_pos hcode) _ 19

end Double

namespace Number

/-- Digits, a point and digits are a number of the grammar. -/
theorem unsignedText_places {whole places : List Char} (hwhole : WholeText whole)
    (hplaces : DigitText places) : UnsignedText (whole ++ '.' :: places) := by
  simpa using UnsignedText.mk hwhole (.places hplaces) .none

/-- One digit stands before the point, and an exponent behind the others. -/
theorem unsignedText_scientific {digits power : List Char} {sign : Char}
    (hdigits : DigitText digits) (hsign : sign = '+' ∨ sign = '-') (hpower : DigitText power) :
    UnsignedText (digits.take 1 ++ (if digits.length ≤ 1 then [] else '.' :: digits.drop 1) ++
      'e' :: sign :: power) := by
  obtain ⟨hne, hall⟩ := hdigits
  cases digits with
  | nil => contradiction
  | cons c digits =>
      refine .mk ⟨⟨by simp, ?_⟩, by simp⟩ ?_ (.signed (.inl rfl) hsign hpower)
      · simpa using hall c List.mem_cons_self
      · split
        · exact .none
        · next hlong =>
            refine .places ⟨?_, fun d hd => hall d (List.mem_of_mem_drop hd)⟩
            simp only [List.length_cons] at hlong
            simpa using List.ne_nil_of_length_pos (by omega)

/-- So is every magnitude as it is written. -/
theorem unsignedText_magnitudeText (code : Nat) : UnsignedText (magnitudeText code) := by
  unfold magnitudeText
  extract_lets shortest digits point fraction exponent sign
  split
  · exact unsignedText_places (wholeText_digits 0) (digitText_digits 0)
  next hcode =>
  have hpos : 0 < shortest.digits ∨ shortest.exponent = 0 := Double.shortest_pos_or hcode
  have hdigits : DigitText digits := digitText_digits shortest.digits
  have hhead : shortest.exponent ≠ 0 → digits.head? ≠ some '0' := fun hexponent =>
    head?_digits_ne (by omega)
  have hlength : 0 < digits.length := List.length_pos_iff.mpr hdigits.1
  split
  · split
    · -- an integer, with zeros behind its digits
      refine unsignedText_places ⟨hdigits.append fun c hc => isDigit_of_mem_replicate hc, ?_⟩
        (digitText_digits 0)
      intro hzero
      by_cases hexponent : shortest.exponent = 0
      · have hwhole := (wholeText_digits shortest.digits).2
        simpa [hexponent] using hwhole (by simpa [hexponent] using hzero)
      · rw [List.head?_append_of_ne_nil _ hdigits.1] at hzero
        exact absurd hzero (hhead hexponent)
    · next hexponent =>
      split
      · -- the point stands between two digits
        next hpoint =>
        have htake : digits.take point.toNat ≠ [] := by
          simp only [ne_eq, List.take_eq_nil_iff, hdigits.1, or_false]
          omega
        refine unsignedText_places ⟨⟨htake, fun c hc => hdigits.2 c (List.mem_of_mem_take hc)⟩, ?_⟩
          ⟨?_, fun c hc => hdigits.2 c (List.mem_of_mem_drop hc)⟩
        · intro hzero
          rw [List.head?_take, if_neg (by omega)] at hzero
          exact absurd hzero (hhead (by omega))
        · simp only [ne_eq, List.drop_eq_nil_iff]
          omega
      · -- zeros stand between the point and the digits
        refine unsignedText_places (wholeText_digits 0) ⟨by simp [hdigits.1], ?_⟩
        intro c hc
        exact (List.mem_append.mp hc).elim isDigit_of_mem_replicate (hdigits.2 c)
  · -- too large or too small for places: one digit, a point, the others and an exponent
    refine unsignedText_scientific hdigits ?_ (digitText_digits exponent.natAbs)
    simp only [sign]
    split <;> simp

/-- The text of a number is one. -/
theorem numberText_chars (n : Number) : NumberText n.chars := by
  cases n with
  | int i =>
      have hdigits : UnsignedText (Text.digits i.natAbs) := by
        simpa using UnsignedText.mk (wholeText_digits i.natAbs) .none .none
      simp only [chars, Text.integerText]
      split
      · exact .negative hdigits
      · exact .unsigned hdigits
  | float x =>
      simp only [chars]
      split
      · exact .negative (unsignedText_magnitudeText x.code)
      · exact .unsigned (unsignedText_magnitudeText x.code)

end Number

/-! ## quotes -/

/-- Where a place in a data text lies. -/
inductive Place where
  /-- Outside of all strings. -/
  | outside
  /-- In a string. -/
  | inside
  /-- In a string, behind a backslash. -/
  | escaped
deriving DecidableEq

namespace Place

/-- The place behind a character. -/
def next : Place → Char → Place
  | outside, c => if c = '"' then inside else outside
  | inside, c => if c = '"' then outside else if c = '\\' then escaped else inside
  | escaped, _ => inside

/-- The place behind a text. -/
def behind (place : Place) (cs : List Char) : Place := cs.foldl next place

@[simp]
theorem behind_nil (place : Place) : place.behind [] = place := rfl

@[simp]
theorem behind_cons (place : Place) (c : Char) (cs : List Char) :
    place.behind (c :: cs) = (place.next c).behind cs := rfl

/-- The place behind two texts is that behind the second, seen from behind the first. -/
@[simp]
theorem behind_append (place : Place) (first second : List Char) :
    place.behind (first ++ second) = (place.behind first).behind second :=
  List.foldl_append

/-- Outside of strings only a quote changes the place. -/
theorem behind_of_notMem {cs : List Char} (h : '"' ∉ cs) : outside.behind cs = outside := by
  induction cs with
  | nil => rfl
  | cons c cs ih =>
      have hc : c ≠ '"' := fun hc => h (hc ▸ List.mem_cons_self)
      rw [behind_cons, next, if_neg hc]
      exact ih fun hmem => h (List.mem_cons_of_mem _ hmem)

/-- The body of a string stays inside of it. -/
theorem behind_stringBody {cs : List Char} (h : StringBody cs) : inside.behind cs = inside := by
  have hhex : ∀ c, IsHexDigit c → inside.next c = inside := by
    unfold IsHexDigit
    decide
  induction h with
  | nil => rfl
  | cons hfirst _ ih =>
      rw [behind_append]
      cases hfirst with
      | plain hquote hescape _ => simpa [next, hquote, hescape] using ih
      | letter _ => exact ih
      | @code a b c d ha hb hc hd =>
          have hfirst : inside.behind ['\\', 'u', a, b, c, d] = inside := by
            have hletter : (inside.next '\\').next 'u' = inside := rfl
            simp only [behind_cons, behind_nil, hletter, hhex a ha, hhex b hb, hhex c hc, hhex d hd]
          rw [hfirst, ih]

/-- Behind a whole string the place is outside again. -/
theorem behind_stringText {cs : List Char} (h : StringText cs) : outside.behind cs = outside := by
  obtain ⟨body, rfl, hbody⟩ := h
  simp [next, behind_stringBody hbody]

/-- Gaps stay outside. -/
theorem behind_gaps {cs : List Char} (h : Gaps cs) : outside.behind cs = outside :=
  behind_of_notMem fun hmem => absurd (h _ hmem) (by decide)

/-- Every string in a data text is closed. -/
theorem behind_spells {category : Category} {cs : List Char} (h : Spells category cs) :
    outside.behind cs = outside := by
  induction h with
  | null => rfl
  | bool b => cases b <;> rfl
  | number h =>
      refine behind_of_notMem fun hmem => ?_
      rcases h.mem hmem with hdigit | hmark
      · exact absurd hdigit (by decide)
      · exact absurd hmark (by decide)
  | string h => exact behind_stringText h
  | emptyList hgap | emptyMapping hgap => simp [next, behind_gaps hgap]
  | list _ ih | mapping _ ih => simp [next, ih]
  | lastItem hbefore _ hafter ih => simp [ih, behind_gaps hbefore, behind_gaps hafter]
  | nextItem hbefore _ hafter _ ih ihrest =>
      simp [next, ih, ihrest, behind_gaps hbefore, behind_gaps hafter]
  | lastMember hbefore hkey hbehind hcolon _ hafter ih =>
      simp [next, ih, behind_gaps hbefore, behind_stringText hkey, behind_gaps hbehind,
        behind_gaps hcolon, behind_gaps hafter]
  | nextMember hbefore hkey hbehind hcolon _ hafter _ ih ihrest =>
      simp [next, ih, ihrest, behind_gaps hbefore, behind_stringText hkey, behind_gaps hbehind,
        behind_gaps hcolon, behind_gaps hafter]

end Place

end Runbook

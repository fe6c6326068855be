import Runbook.Delay
import Runbook.Proofs.Text.Blank
import Runbook.Proofs.Text.Numeral
import Runbook.Proofs.Text.Search
import Mathlib.Algebra.Group.Nat.Defs

/-!
# Runbook.Proofs.Delay.Reading

Which delays the texts of delays spell. Between blanks stands a natural number, behind a plus sign
or without one, and behind it nothing, for seconds, or the name of a unit with blanks in front of it
or none (`Delay.Spells`). These texts are read, with the length that the number of units has, and no
others (`Delay.ofText?_exact`).
-/

namespace Runbook

/-- The units of a delay. -/
inductive DelayUnit where
  | millisecond
  | second
  | minute

namespace DelayUnit

/-- How a unit is written. -/
def names : DelayUnit → List (List Char)
  | millisecond => [['m', 's']]
  | second => [['s'], ['S']]
  | minute => [['m'], ['M']]

/-- The nanoseconds of a number of units. Minutes come to as many seconds as fit a word at most. -/
def nanos : DelayUnit → Nat → Nat
  | millisecond, n => n * 10 ^ 6
  | second, n => n * 10 ^ 9
  | minute, n => min (60 * n) (2 ^ 64 - 1) * 10 ^ 9

/-- The delay of a number of units. -/
def delay : DelayUnit → Nat → Delay
  | millisecond => .ofMillis
  | second => .ofSeconds
  | minute => fun n => .ofSeconds (min (n * 60) (Text.wordLimit - 1))

end DelayUnit

namespace Delay

open Text

/-- The text spells a number of units. -/
inductive Spells : List Char → Nat → DelayUnit → Prop
  | bare {number : List Char} {n : Nat} (h : SpellsNatural number n) : Spells number n .second
  | named {number gap name : List Char} {n : Nat} {unit : DelayUnit} (h : SpellsNatural number n)
      (hgap : Blanks gap) (hname : name ∈ unit.names) : Spells (number ++ (gap ++ name)) n unit

/-! ## lengths -/

/-- A delay of seconds, in nanoseconds. -/
theorem toNanos_ofSeconds {n : Nat} (h : n < 2 ^ 64) : (ofSeconds n).toNanos = n * 10 ^ 9 := by
  have hseconds : (UInt64.ofNat n).toNat = n := UInt64.toNat_ofNat_of_lt' h
  simp [ofSeconds, toNanos, hseconds, nanosPerSecond]

/-- A delay of milliseconds, in nanoseconds. -/
theorem toNanos_ofMillis {n : Nat} (h : n < 2 ^ 64) : (ofMillis n).toNanos = n * 10 ^ 6 := by
  have hseconds : (UInt64.ofNat (n / 1000)).toNat = n / 1000 :=
    UInt64.toNat_ofNat_of_lt' (Nat.lt_of_le_of_lt (Nat.div_le_self n 1000) h)
  simp only [ofMillis, toNanos, hseconds, nanosPerSecond]
  omega

/-- A number of units that fits a word is as long as it says. -/
theorem toNanos_delay (unit : DelayUnit) {n : Nat} (h : n < 2 ^ 64) :
    (unit.delay n).toNanos = unit.nanos n := by
  cases unit with
  | millisecond => exact toNanos_ofMillis h
  | second => exact toNanos_ofSeconds h
  | minute =>
      have hlimit : wordLimit = 2 ^ 64 := rfl
      rw [DelayUnit.delay, toNanos_ofSeconds (by omega), DelayUnit.nanos, hlimit, Nat.mul_comm n]

/-- A delay is known by its length. -/
theorem toNanos_injective {d e : Delay} (h : d.toNanos = e.toNanos) : d = e := by
  obtain ⟨seconds, nanos⟩ := d
  obtain ⟨seconds', nanos'⟩ := e
  have hnanos := nanos.isLt
  have hnanos' := nanos'.isLt
  simp only [toNanos] at h
  unfold nanosPerSecond at h hnanos hnanos'
  have hseconds : seconds = seconds' := UInt64.toNat_inj.mp (by omega)
  have hrest : nanos = nanos' := Fin.ext (by omega)
  rw [hseconds, hrest]

/-! ## numbers -/

/-- A count is the number that the trimmed text spells, if it fits a word. -/
theorem count?_eq_some_iff {cs : List Char} {n : Nat} :
    count? cs = some n ↔ SpellsNatural (trim cs) n ∧ n < 2 ^ 64 :=
  natural?_eq_some_iff

/-- Blanks behind a count do not matter. -/
theorem count?_padded {number gap : List Char} {n : Nat} (h : SpellsNatural number n)
    (hgap : Blanks gap) (hn : n < 2 ^ 64) : count? (number ++ gap) = some n := by
  have htrim : trim (number ++ gap) = number :=
    trim_padded blanks_nil hgap (solid_of_spellsNatural h)
  exact count?_eq_some_iff.mpr ⟨htrim.symm ▸ h, hn⟩

/-! ## reading -/

/-- In front of the end of a trimmed text stand a trimmed text and blanks. -/
theorem exists_gap {text front tail : List Char} (h : trim text = front ++ tail) :
    ∃ gap, Blanks gap ∧ front = trim front ++ gap := by
  cases front with
  | nil => exact ⟨[], blanks_nil, rfl⟩
  | cons c rest =>
      rcases trim_solid text with hnil | hsolid
      · simp [hnil] at h
      · obtain ⟨d, more, hstart, hd⟩ := hsolid.starts
        obtain rfl : c = d := by
          rw [h] at hstart
          exact (List.cons.inj hstart).1
        obtain ⟨gap, hgap, hrest⟩ := exists_trimEnd_append (c :: rest)
        rw [trim, trimStart_cons hd]
        exact ⟨gap, hgap, hrest⟩

/-- The text between the blanks is a delay of that length. -/
def Means (cs : List Char) (d : Delay) : Prop :=
  ∃ n unit, Spells cs n unit ∧ n < 2 ^ 64 ∧ d.toNanos = unit.nanos n

/-- A number in front of the name of a unit is read as a number of these units. -/
theorem means_of_count? (unit : DelayUnit) {text front name : List Char} {d : Delay}
    (htext : trim text = front ++ name) (hname : name ∈ unit.names)
    (h : (count? front).map unit.delay = some d) : Means (trim text) d := by
  obtain ⟨n, hcount, rfl⟩ := Option.map_eq_some_iff.mp h
  obtain ⟨hnumber, hn⟩ := count?_eq_some_iff.mp hcount
  obtain ⟨gap, hgap, hfront⟩ := exists_gap htext
  rw [htext, hfront, List.append_assoc]
  exact ⟨n, unit, .named hnumber hgap hname, hn, toNanos_delay unit hn⟩

/-- What is read is what the text means. -/
theorem means_of_ofText? {text : List Char} {d : Delay} (h : ofText? text = some d) :
    Means (trim text) d := by
  have hlast {c : Char} (hc : (trim text).getLast? = some c) :
      trim text = (trim text).dropLast ++ [c] := (List.dropLast_append_getLast? c hc).symm
  simp only [ofText?] at h
  split at h
  · next hmillis =>
      exact means_of_count? .millisecond (dropTail?_eq_some_iff.mp hmillis) (by decide) h
  · split at h
    · contradiction
    · next hc => exact means_of_count? .second (hlast hc) (by decide) h
    · next hc => exact means_of_count? .second (hlast hc) (by decide) h
    · next hc => exact means_of_count? .minute (hlast hc) (by decide) h
    · next hc => exact means_of_count? .minute (hlast hc) (by decide) h
    · obtain ⟨n, hcount, rfl⟩ := Option.map_eq_some_iff.mp h
      obtain ⟨hnumber, hn⟩ := count?_eq_some_iff.mp hcount
      rw [trim_trim] at hnumber
      exact ⟨n, .second, .bare hnumber, hn, toNanos_ofSeconds hn⟩

/-- A text ends with the name of milliseconds only behind its `m`. -/
theorem dropTail?_millis_eq_none {front : List Char} (h : 'm' ∉ front) (c : Char) :
    dropTail? "ms".toList (front ++ [c]) = none := by
  by_contra hsome
  obtain ⟨rest, hrest⟩ := Option.ne_none_iff_exists'.mp hsome
  have hcs : front ++ [c] = rest ++ ['m'] ++ ['s'] := by
    simpa using dropTail?_eq_some_iff.mp hrest
  have hm : front = rest ++ ['m'] := (List.append_inj' hcs rfl).1
  exact h (by simp [hm])

/-- A text that ends with the name of a unit is read as a number of these units. -/
theorem ofText?_of_named {text front name : List Char} {unit : DelayUnit}
    (h : trim text = front ++ name) (hname : name ∈ unit.names) (hfront : 'm' ∉ front) :
    ofText? text = (count? front).map unit.delay := by
  have hletter {c : Char} (hc : name = [c]) :
      dropTail? "ms".toList (trim text) = none ∧ (trim text).getLast? = some c ∧
        (trim text).dropLast = front := by
    rw [h, hc]
    exact ⟨dropTail?_millis_eq_none hfront c, List.getLast?_concat, List.dropLast_concat⟩
  cases unit with
  | millisecond =>
      obtain rfl := List.mem_singleton.mp hname
      have htail : dropTail? "ms".toList (trim text) = some front := dropTail?_eq_some_iff.mpr h
      simp only [ofText?, htail, DelayUnit.delay]
  | second =>
      rcases List.mem_pair.mp hname with hc | hc <;> obtain ⟨hnone, hc, hdrop⟩ := hletter hc <;>
        simp only [ofText?, hnone, hc, hdrop, DelayUnit.delay]
  | minute =>
      rcases List.mem_pair.mp hname with hc | hc <;> obtain ⟨hnone, hc, hdrop⟩ := hletter hc <;>
        simp only [ofText?, hnone, hc, hdrop, DelayUnit.delay]

/-- A text without a unit counts seconds. -/
theorem ofText?_of_bare {text front : List Char} {c : Char} (h : trim text = front ++ [c])
    (hc : c ∉ ['s', 'S', 'm', 'M']) (hfront : 'm' ∉ front) :
    ofText? text = (count? (front ++ [c])).map ofSeconds := by
  simp only [ofText?, h, dropTail?_millis_eq_none hfront, List.getLast?_concat]
  split <;> simp_all

/-- The number and the blanks in front of the name of a unit have no letter of it. -/
theorem m_notMem {number gap : List Char} {n : Nat} (h : SpellsNatural number n)
    (hgap : Blanks gap) : 'm' ∉ number ++ gap := by
  intro hmem
  rcases List.mem_append.mp hmem with hnumber | hblank
  · have hdigit := eq_plus_or_isDigit h hnumber
    contradiction
  · have hblank := hgap 'm' hblank
    contradiction

/-- What the text means is read. -/
theorem ofText?_of_spells {text : List Char} {n : Nat} {unit : DelayUnit}
    (h : Spells (trim text) n unit) (hn : n < 2 ^ 64) :
    ∃ d, ofText? text = some d ∧ d.toNanos = unit.nanos n := by
  generalize htext : trim text = cs at h
  cases h with
  | bare h =>
      have hcount : count? cs = some n := by simpa using count?_padded h blanks_nil hn
      obtain ⟨front, c, rfl, -⟩ := (solid_of_spellsNatural h).ends
      have hm : 'm' ∉ front ++ [c] := by simpa using m_notMem h blanks_nil
      have hc : c ∉ ['s', 'S', 'm', 'M'] := by
        have hletters : ∀ c ∈ ['s', 'S', 'm', 'M'], ¬(c = '+' ∨ c.isDigit = true) := by decide
        exact fun hmem => hletters c hmem (eq_plus_or_isDigit h (by simp))
      rw [ofText?_of_bare htext hc fun hmem => hm (List.mem_append_left _ hmem), hcount]
      exact ⟨ofSeconds n, rfl, toNanos_ofSeconds hn⟩
  | named h hgap hname =>
      rw [← List.append_assoc] at htext
      rw [ofText?_of_named htext hname (m_notMem h hgap), count?_padded h hgap hn]
      exact ⟨unit.delay n, rfl, toNanos_delay unit hn⟩

/-- **Reading a delay.** A text is read as a delay exactly if between blanks it spells a number of
units that is a word: an optional plus sign, digits, and nothing or the name of a unit with blanks
in front of it. The delay has the length of these units, in which minutes come to as many seconds as
a word holds at most. Every other text is refused. -/
theorem ofText?_exact (text : List Char) :
    (∀ d, ofText? text = some d ↔
      ∃ n unit, Spells (trim text) n unit ∧ n < 2 ^ 64 ∧ d.toNanos = unit.nanos n) ∧
    (ofText? text = none ↔ ¬∃ n unit, Spells (trim text) n unit ∧ n < 2 ^ 64) := by
  refine ⟨fun d => ⟨means_of_ofText?, ?_⟩, ?_, ?_⟩
  · rintro ⟨n, unit, hspells, hn, hd⟩
    obtain ⟨e, he, hlength⟩ := ofText?_of_spells hspells hn
    rw [he, toNanos_injective (hlength.trans hd.symm)]
  · rintro hnone ⟨n, unit, hspells, hn⟩
    obtain ⟨d, hd, -⟩ := ofText?_of_spells hspells hn
    rw [hnone] at hd
    contradiction
  · intro hnothing
    cases h : ofText? text with
    | none => rfl
    | some d =>
        obtain ⟨n, unit, hspells, hn, -⟩ := means_of_ofText? h
        exact absurd ⟨n, unit, hspells, hn⟩ hnothing

-- the name of milliseconds is read in small letters only
example : ofText? " +5 M ".toList = some (ofSeconds 300) ∧ ofText? "5 MS".toList = none := by
  decide

end Delay

end Runbook

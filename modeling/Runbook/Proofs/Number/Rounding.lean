import Runbook.Number.Basic
import Mathlib.Algebra.Group.Nat.Defs
import Mathlib.Order.Monotone.Basic

/-!
# Runbook.Proofs.Number.Rounding

What integers become when they are compared as floating point numbers. The scale of comparisons is
the order of the values (`Double.ordinal_lt_iff`), and the value that an integer gets there is the
nearest integer with at most 53 binary digits in front of its zeros, a half going to the even one
(`Number.rounded`, `Number.value_doubleOfInt`). So rounding never turns the order of two integers
around (`Number.rounded_mono`); all that it can do is make neighbours equal, and it makes none equal
up to 2 ^ 53 (`Number.rounded_of_natAbs_le`).
-/

namespace Runbook

namespace Double

theorem twoTo_eq (n : Nat) : twoTo n = 2 ^ n := rfl

theorem fractionLimit_eq : fractionLimit = 2 ^ 52 := rfl

/-! ## the nearest quotient -/

/-- The nearest quotient is the one rounded down, or the next one if at least a half is left. -/
theorem divideToNearest_cases (num den : Nat) :
    (divideToNearest num den = num / den ∧ 2 * (num % den) ≤ den) ∨
      (divideToNearest num den = num / den + 1 ∧ den ≤ 2 * (num % den)) := by
  unfold divideToNearest
  dsimp only
  split
  · omega
  · split
    · have hparity := Nat.mod_two_eq_zero_or_one (num / den)
      omega
    · omega

/-- Rounding keeps the order of the numerators. -/
theorem divideToNearest_mono {num num' : Nat} (h : num ≤ num') (den : Nat) :
    divideToNearest num den ≤ divideToNearest num' den := by
  have hquotient : num / den ≤ num' / den := Nat.div_le_div_right h
  by_cases heq : num / den = num' / den
  · -- with one quotient, the larger number leaves the larger rest
    have hrest : num % den ≤ num' % den := by
      have hnum := Nat.div_add_mod num den
      have hnum' := Nat.div_add_mod num' den
      rw [heq] at hnum
      omega
    simp only [divideToNearest, heq]
    grind
  · have hlow := divideToNearest_cases num den
    have hhigh := divideToNearest_cases num' den
    omega

/-- A common factor cancels before the rounding. -/
theorem divideToNearest_mul_left {factor : Nat} (hfactor : 0 < factor) (num den : Nat) :
    divideToNearest (factor * num) (factor * den) = divideToNearest num den := by
  have htwice : 2 * (factor * (num % den)) = factor * (2 * (num % den)) := Nat.mul_left_comm ..
  unfold divideToNearest
  simp only [Nat.mul_div_mul_left _ _ hfactor, Nat.mul_mod_mul_left, htwice,
    Nat.mul_lt_mul_left hfactor, Nat.mul_right_inj (Nat.ne_of_gt hfactor)]

/-- An exact quotient is left alone. -/
theorem divideToNearest_mul_right {den : Nat} (hden : 0 < den) (quotient : Nat) :
    divideToNearest (quotient * den) den = quotient := by
  simp [divideToNearest, Nat.mul_div_cancel _ hden, hden]

/-- The nearest quotient lies between bounds of the exact one. -/
theorem divideToNearest_bounds {num den low high : Nat} (hden : 0 < den) (hlow : low * den ≤ num)
    (hhigh : num ≤ high * den) :
    low ≤ divideToNearest num den ∧ divideToNearest num den ≤ high := by
  constructor
  · rw [← divideToNearest_mul_right hden low]
    exact divideToNearest_mono hlow den
  · rw [← divideToNearest_mul_right hden high]
    exact divideToNearest_mono hhigh den

/-! ## codes and magnitudes -/

/-- The magnitude of a code, as a multiple of the smallest one. -/
def magnitude (code : Nat) : Nat := (parts code).1 * 2 ^ (parts code).2

/-- The exponent and the fraction of a code give its parts. -/
theorem parts_fields (field : Nat) {fraction : Nat} (h : fraction < 2 ^ 52) :
    parts (field * 2 ^ 52 + fraction) =
      if field = 0 then (fraction, 0) else (2 ^ 52 + fraction, field - 1) := by
  have hfield : (field * 2 ^ 52 + fraction) / fractionLimit = field := by
    rw [fractionLimit_eq]
    omega
  have hfraction : (field * 2 ^ 52 + fraction) % fractionLimit = fraction := by
    rw [fractionLimit_eq]
    omega
  have hparts (code : Nat) : parts code =
      if code / fractionLimit = 0 then (code % fractionLimit, 0)
      else (fractionLimit + code % fractionLimit, code / fractionLimit - 1) := rfl
  rw [hparts, hfield, hfraction, fractionLimit_eq]

/-- The first binade is counted in the smallest unit. -/
theorem magnitude_subnormal {fraction : Nat} (h : fraction < 2 ^ 52) :
    magnitude fraction = fraction := by
  have hparts := parts_fields 0 h
  rw [Nat.zero_mul, Nat.zero_add, if_pos rfl] at hparts
  rw [magnitude, hparts]
  exact Nat.mul_one fraction

/-- Codes count the significands of each exponent, and the count carries into the exponent. -/
theorem magnitude_normal {significand : Nat} (hlow : 2 ^ 52 ≤ significand)
    (hhigh : significand ≤ 2 ^ 53) (places : Nat) :
    magnitude (places * 2 ^ 52 + significand) = significand * 2 ^ places := by
  obtain ⟨fraction, rfl⟩ := Nat.exists_eq_add_of_le hlow
  by_cases hcarry : fraction = 2 ^ 52
  · have hcode : places * 2 ^ 52 + (2 ^ 52 + fraction) = (places + 2) * 2 ^ 52 + 0 := by omega
    rw [magnitude, hcode, parts_fields (places + 2) (Nat.two_pow_pos 52), if_neg (by omega), hcarry,
      Nat.add_zero, ← Nat.two_mul, Nat.mul_comm 2, Nat.mul_assoc, ← Nat.pow_succ']
    rfl
  · have hcode : places * 2 ^ 52 + (2 ^ 52 + fraction) = (places + 1) * 2 ^ 52 + fraction := by
      omega
    rw [magnitude, hcode, parts_fields (places + 1) (by omega), if_neg (Nat.succ_ne_zero places)]
    rfl

/-- A greater code has a greater magnitude. -/
theorem magnitude_lt_succ (code : Nat) : magnitude code < magnitude (code + 1) := by
  by_cases hsmall : code < 2 ^ 52
  · rw [magnitude_subnormal hsmall]
    by_cases hnext : code + 1 < 2 ^ 52
    · rw [magnitude_subnormal hnext]
      omega
    · have hcode : code + 1 = 0 * 2 ^ 52 + 2 ^ 52 := by omega
      rw [hcode, magnitude_normal (by omega) (by omega)]
      omega
  · -- the code and the next one have significands for the same exponent
    obtain ⟨places, significand, hcode, hlow, hhigh⟩ : ∃ places significand,
        code = places * 2 ^ 52 + significand ∧ 2 ^ 52 ≤ significand ∧ significand < 2 ^ 53 :=
      ⟨code / 2 ^ 52 - 1, code % 2 ^ 52 + 2 ^ 52, by omega, by omega, by omega⟩
    rw [hcode, Nat.add_assoc, magnitude_normal hlow (by omega),
      magnitude_normal (by omega) (by omega)]
    exact Nat.mul_lt_mul_of_pos_right (Nat.lt_succ_self _) (Nat.two_pow_pos _)

/-- Codes grow with the magnitudes that they stand for. -/
theorem magnitude_strictMono : StrictMono magnitude := strictMono_nat_of_lt_succ magnitude_lt_succ

/-! ## signs -/

/-- A natural number with a sign. -/
def signed (negative : Bool) (n : Nat) : Int := if negative then -(n : Int) else n

/-- A sign in front keeps the order, or turns it, for both alike. -/
theorem signed_lt_iff {f : Nat → Nat} (hf : StrictMono f) (hzero : f 0 = 0) (s t : Bool)
    (m n : Nat) : signed s (f m) < signed t (f n) ↔ signed s m < signed t n := by
  have hlt : ∀ {m n}, f m < f n ↔ m < n := hf.lt_iff_lt
  have hpos : ∀ {m}, 0 < f m ↔ 0 < m := by
    intro m
    rw [← hzero, hlt, hzero]
  have hm := hpos (m := m)
  have hn := hpos (m := n)
  cases s <;> cases t <;> simp only [signed, if_true, if_false, Bool.false_eq_true]
  · exact_mod_cast hlt
  · omega
  · omega
  · have hnm := hlt (m := n) (n := m)
    omega

/-- The value of a number, as a multiple of the smallest magnitude. -/
def value (x : Double) : Int := signed x.negative (magnitude x.code)

/-- The order of the ordinals is the order of the values. -/
theorem ordinal_lt_iff (x y : Double) : x.ordinal < y.ordinal ↔ x.value < y.value :=
  (signed_lt_iff magnitude_strictMono rfl x.negative y.negative x.code y.code).symm

/-! ## natural numbers -/

/-- The distance of natural numbers with 53 binary digits and zeros behind them, around a natural
number. -/
def spacing (n : Nat) : Nat := 2 ^ (n.log2 - 52)

/-- The nearest natural number with at most 53 binary digits in front of its zeros; a half goes to
the even neighbour. -/
def roundedNat (n : Nat) : Nat := divideToNearest n (spacing n) * spacing n

theorem spacing_pos (n : Nat) : 0 < spacing n := Nat.two_pow_pos _

/-- The bounds of the number of digits of a natural number. -/
theorem log2_bounds {n : Nat} (hn : n ≠ 0) : 2 ^ n.log2 ≤ n ∧ n < 2 ^ (n.log2 + 1) :=
  ⟨Nat.log2_self_le hn, Nat.lt_log2_self⟩

/-- A number of at most 53 bits is exact. -/
theorem roundedNat_of_lt {n : Nat} (h : n < 2 ^ 53) : roundedNat n = n := by
  have hspacing : spacing n = 1 := by
    by_cases hn : n = 0
    · subst hn
      rfl
    · have hlog : n.log2 < 53 := (Nat.log2_lt hn).mpr h
      have hexponent : n.log2 - 52 = 0 := by omega
      rw [spacing, hexponent, Nat.pow_zero]
  have hexact := divideToNearest_mul_right Nat.one_pos n
  rw [Nat.mul_one] at hexact
  rw [roundedNat, hspacing, hexact, Nat.mul_one]

/-- The significand of a number with more than 52 digits behind the first. -/
theorem significand_bounds {n : Nat} (hn : n ≠ 0) (hlog : 52 ≤ n.log2) :
    2 ^ 52 ≤ divideToNearest n (spacing n) ∧ divideToNearest n (spacing n) ≤ 2 ^ 53 := by
  obtain ⟨hlow, hhigh⟩ := log2_bounds hn
  have hexponent : n.log2 = 52 + (n.log2 - 52) := by omega
  refine divideToNearest_bounds (spacing_pos n) ?_ ?_
  · rwa [spacing, ← Nat.pow_add, ← hexponent]
  · have hnext : n.log2 + 1 = 53 + (n.log2 - 52) := by omega
    rw [hnext] at hhigh
    rw [spacing, ← Nat.pow_add]
    exact Nat.le_of_lt hhigh

/-- Rounding does not leave the powers of two around a number. -/
theorem roundedNat_bounds {n : Nat} (hn : n ≠ 0) :
    2 ^ n.log2 ≤ roundedNat n ∧ roundedNat n ≤ 2 ^ (n.log2 + 1) := by
  by_cases hlog : 52 ≤ n.log2
  · obtain ⟨hlow, hhigh⟩ := significand_bounds hn hlog
    have hexponent : n.log2 = 52 + (n.log2 - 52) := by omega
    have hnext : n.log2 + 1 = 53 + (n.log2 - 52) := by omega
    constructor
    · calc
        2 ^ n.log2 = 2 ^ 52 * spacing n := by rw [spacing, ← Nat.pow_add, ← hexponent]
        _ ≤ roundedNat n := Nat.mul_le_mul_right _ hlow
    · calc
        roundedNat n ≤ 2 ^ 53 * spacing n := Nat.mul_le_mul_right _ hhigh
        _ = 2 ^ (n.log2 + 1) := by rw [spacing, ← Nat.pow_add, ← hnext]
  · have hsmall : n < 2 ^ 53 := (Nat.log2_lt hn).mp (by omega)
    obtain ⟨hlow, hhigh⟩ := log2_bounds hn
    rw [roundedNat_of_lt hsmall]
    exact ⟨hlow, Nat.le_of_lt hhigh⟩

/-- Rounding keeps the order. -/
theorem roundedNat_mono {m n : Nat} (h : m ≤ n) : roundedNat m ≤ roundedNat n := by
  by_cases hm : m = 0
  · subst hm
    exact Nat.zero_le _
  · have hn : n ≠ 0 := by omega
    have hlog : m.log2 ≤ n.log2 := (Nat.le_log2 hn).mpr (Nat.le_trans (log2_bounds hm).1 h)
    by_cases heq : m.log2 = n.log2
    · have hspacing : spacing m = spacing n := by rw [spacing, spacing, heq]
      rw [roundedNat, roundedNat, hspacing]
      exact Nat.mul_le_mul_right _ (divideToNearest_mono h _)
    · calc
        roundedNat m ≤ 2 ^ (m.log2 + 1) := (roundedNat_bounds hm).2
        _ ≤ 2 ^ n.log2 := Nat.pow_le_pow_right (by omega) (by omega)
        _ ≤ roundedNat n := (roundedNat_bounds hn).1

/-! ## the code of a natural number -/

/-- The code of a natural number has the place of its first digit in the exponent. -/
theorem round_one {n : Nat} (hn : n ≠ 0) :
    round n 1 = (n.log2 + 1022) * 2 ^ 52 + divideToNearest (2 ^ 52 * n) (2 ^ n.log2) := by
  have hadd : ∀ a b, twoTo (a + b) = twoTo b * 2 ^ a := fun a b => by
    rw [twoTo_eq, twoTo_eq, Nat.pow_add, Nat.mul_comm]
  have hlog : Nat.log2 1 = 0 := by decide
  have hplaces : n.log2 + 1074 - (Nat.log2 1 + 53) = n.log2 + 1021 := by omega
  -- at the lower count of places the significand has 54 digits
  have hdigits : ¬n * twoTo 1074 / (1 * twoTo (n.log2 + 1021)) < 2 * fractionLimit := by
    have hlow : 2 ^ n.log2 ≤ n := (log2_bounds hn).1
    rw [Nat.not_lt, Nat.one_mul, hadd n.log2 1021, hadd 53 1021,
      Nat.le_div_iff_mul_le (Nat.mul_pos (twoTo_pos _) (Nat.two_pow_pos _))]
    calc
      2 * fractionLimit * (twoTo 1021 * 2 ^ n.log2) = 2 ^ n.log2 * (twoTo 1021 * 2 ^ 53) := by
        rw [fractionLimit_eq, ← Nat.pow_succ', Nat.mul_comm, Nat.mul_right_comm, Nat.mul_comm]
      _ ≤ n * (twoTo 1021 * 2 ^ 53) := Nat.mul_le_mul_right _ hlow
  have hratio : divideToNearest (n * twoTo 1074) (1 * twoTo (n.log2 + 1021 + 1)) =
      divideToNearest (2 ^ 52 * n) (2 ^ n.log2) := by
    rw [Nat.one_mul, Nat.add_assoc, hadd n.log2 1022, hadd 52 1022, Nat.mul_left_comm,
      Nat.mul_comm n, divideToNearest_mul_left (twoTo_pos 1022)]
  simp only [round, if_neg hn, hplaces, if_neg hdigits, hratio]
  rw [fractionLimit_eq]

/-- The magnitude of the code is the rounded number. -/
theorem magnitude_round_one (n : Nat) : magnitude (round n 1) = roundedNat n * twoTo 1074 := by
  by_cases hn : n = 0
  · subst hn
    have hzero : round 0 1 = 0 := rfl
    rw [hzero, magnitude_subnormal (Nat.two_pow_pos 52), roundedNat_of_lt (Nat.two_pow_pos 53),
      Nat.zero_mul]
  · have hadd : ∀ a b, 2 ^ a * twoTo b = twoTo (a + b) := fun a b => (Nat.pow_add 2 a b).symm
    obtain ⟨hfirst, hlast⟩ := log2_bounds hn
    rw [round_one hn]
    by_cases hlog : 52 ≤ n.log2
    · -- the number has more bits than a double holds: the spacing is divided out
      obtain ⟨hlow, hhigh⟩ := significand_bounds hn hlog
      have hpower : 2 ^ n.log2 = 2 ^ 52 * spacing n := by
        rw [spacing, ← Nat.pow_add, Nat.add_sub_cancel' hlog]
      have hexponent : n.log2 - 52 + 1074 = n.log2 + 1022 := by omega
      rw [hpower, divideToNearest_mul_left (Nat.two_pow_pos 52), magnitude_normal hlow hhigh,
        roundedNat, Nat.mul_assoc, spacing, hadd, hexponent, twoTo_eq]
    · -- the number fits: it is shifted up to a full significand, and nothing is lost
      have hsmall : n < 2 ^ 53 := (Nat.log2_lt hn).mp (by omega)
      have hzeros : 2 ^ n.log2 * 2 ^ (52 - n.log2) = 2 ^ 52 := by
        rw [← Nat.pow_add, Nat.add_sub_cancel' (by omega)]
      have hnumber : 2 ^ 52 * n = n * 2 ^ (52 - n.log2) * 2 ^ n.log2 := by
        rw [Nat.mul_assoc, Nat.mul_comm (2 ^ (52 - n.log2)), hzeros, Nat.mul_comm]
      have hlow : 2 ^ 52 ≤ n * 2 ^ (52 - n.log2) := by
        rw [← hzeros]
        exact Nat.mul_le_mul_right _ hfirst
      have hhigh : n * 2 ^ (52 - n.log2) ≤ 2 ^ 53 := by
        calc
          n * 2 ^ (52 - n.log2) ≤ 2 ^ (n.log2 + 1) * 2 ^ (52 - n.log2) :=
            Nat.mul_le_mul_right _ (Nat.le_of_lt hlast)
          _ = 2 ^ 52 * 2 := by rw [Nat.pow_succ, Nat.mul_right_comm, hzeros]
          _ = 2 ^ 53 := (Nat.pow_succ ..).symm
      have hexponent : 52 - n.log2 + (n.log2 + 1022) = 1074 := by omega
      rw [hnumber, divideToNearest_mul_right (Nat.two_pow_pos _), magnitude_normal hlow hhigh,
        Nat.mul_assoc, ← twoTo_eq (n.log2 + 1022), hadd, hexponent, roundedNat_of_lt hsmall]

end Double

/-! ## integers -/

namespace Number

/-- The integer that an integer becomes as a floating point number. -/
def rounded (i : Int) : Int := Double.signed (i < 0) (Double.roundedNat i.natAbs)

/-- The double of an integer has the rounded value. -/
theorem value_doubleOfInt (i : Int) : (doubleOfInt i).value = rounded i * (twoTo 1074 : Nat) := by
  rw [Double.value, doubleOfInt, Double.magnitude_round_one, rounded, Double.signed, Double.signed]
  split
  · rw [Int.natCast_mul, Int.neg_mul]
  · rw [Int.natCast_mul]

/-- Integers are in the order in which their rounded values are. -/
theorem ordinal_doubleOfInt_lt_iff (i j : Int) :
    (doubleOfInt i).ordinal < (doubleOfInt j).ordinal ↔ rounded i < rounded j := by
  have hpos : (0 : Int) < (twoTo 1074 : Nat) := Int.natCast_pos.mpr (twoTo_pos 1074)
  rw [Double.ordinal_lt_iff, value_doubleOfInt, value_doubleOfInt, Int.mul_lt_mul_right hpos]

/-- So does the rounding of integers. -/
theorem rounded_mono {i j : Int} (h : i ≤ j) : rounded i ≤ rounded j := by
  unfold rounded Double.signed
  by_cases hi : i < 0
  · by_cases hj : j < 0
    · have hle := Double.roundedNat_mono (m := j.natAbs) (n := i.natAbs) (by omega)
      simp only [hi, hj, decide_true, if_true]
      omega
    · simp only [hi, hj, decide_true, decide_false, if_true, if_false, Bool.false_eq_true]
      omega
  · have hj : ¬j < 0 := by omega
    have hle := Double.roundedNat_mono (m := i.natAbs) (n := j.natAbs) (by omega)
    simp only [hi, hj, decide_false, if_false, Bool.false_eq_true]
    omega

/-- Integers up to 2 ^ 53 stay as they are. -/
theorem rounded_of_natAbs_le {i : Int} (h : i.natAbs ≤ 2 ^ 53) : rounded i = i := by
  have hexact : Double.roundedNat i.natAbs = i.natAbs := by
    rcases Nat.lt_or_eq_of_le h with hlt | heq
    · exact Double.roundedNat_of_lt hlt
    · rw [heq]
      decide
  rw [rounded, hexact, Double.signed]
  by_cases hneg : i < 0
  · rw [if_pos (decide_eq_true hneg)]
    omega
  · rw [if_neg (by simp [hneg])]
    omega

end Number

end Runbook

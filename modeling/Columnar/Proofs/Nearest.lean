import Mathlib.Tactic.Ring
import Mathlib.Tactic.Linarith
import Mathlib.Tactic.Positivity
import Mathlib.Data.Rat.Cast.Order
import Columnar.Binary.Shortest
import Columnar.Proofs.Exactness

/-!
# Rounding to the nearest value

A number is rounded to a value of a format if it lies in the interval halfway to the neighbours of
the value, with the ends if the significand is even. Rounding is monotone, and it moves a number by
half the distance of values around it at most.

## Main definitions

* `Precision.Interval.Contains`: the numbers that round to a magnitude.

## Main statements

* `Precision.roundUnits_eq_of_contains`: numbers of the interval are rounded to its magnitude.
* `Precision.roundUnits_mono`: larger numbers are rounded to larger magnitudes.
* `Precision.units_roundUnits_near`: how far a number is from what it is rounded to.
-/

namespace Columnar

variable {num den num' den' n t : Nat}

/-! ## Integers -/

/-- Rounding to an integer moves a number by one half at most. -/
theorem roundHalfEven_near (num : Nat) (positive : 0 < den) :
    2 * num ≤ (2 * roundHalfEven num den + 1) * den ∧
      2 * roundHalfEven num den * den ≤ 2 * num + den := by
  have split := Nat.div_add_mod num den
  have rest := Nat.mod_lt num positive
  have below : (2 * (num / den) + 1) * den = 2 * (den * (num / den)) + den := by ring
  have above : (2 * (num / den + 1) + 1) * den = 2 * (den * (num / den)) + 3 * den := by ring
  have down : 2 * (num / den) * den = 2 * (den * (num / den)) := by ring
  have up : 2 * (num / den + 1) * den = 2 * (den * (num / den)) + 2 * den := by ring
  unfold roundHalfEven
  simp only
  split_ifs with low high
  · omega
  · omega
  · rcases Nat.mod_two_eq_zero_or_one (num / den) with even | odd
    · simp only [even, Nat.add_zero]
      omega
    · simp only [odd]
      omega

/-- A number is rounded to an integer that is nearer than one half, or to an even one that is as
near. -/
theorem roundHalfEven_eq_of_near (positive : 0 < den) (lower : 2 * n * den ≤ 2 * num + den)
    (upper : 2 * num ≤ (2 * n + 1) * den)
    (tie : n % 2 = 1 → 2 * n * den < 2 * num + den ∧ 2 * num < (2 * n + 1) * den) :
    roundHalfEven num den = n := by
  have split := Nat.div_add_mod num den
  have rest := Nat.mod_lt num positive
  have ends : (2 * n + 1) * den = 2 * n * den + den := by ring
  have whole : 2 * n * den = 2 * (den * n) := by ring
  have least : num / den ≤ n := by
    by_contra more
    have far : den * (n + 1) ≤ den * (num / den) := Nat.mul_le_mul_left den (by omega)
    rw [Nat.mul_succ] at far
    omega
  have most : n ≤ num / den + 1 := by
    by_contra more
    have far : den * (num / den + 2) ≤ den * n := Nat.mul_le_mul_left den (by omega)
    rw [Nat.mul_add] at far
    omega
  unfold roundHalfEven
  simp only
  obtain rfl | next : n = num / den ∨ n = num / den + 1 := by omega
  · have here : 2 * (num / den) * den = 2 * (den * (num / den)) := by ring
    have half : (2 * (num / den) + 1) * den = 2 * (den * (num / den)) + den := by ring
    split_ifs <;> omega
  · rw [next] at lower tie ⊢
    have here : 2 * (num / den + 1) * den = 2 * (den * (num / den)) + 2 * den := by ring
    split_ifs <;> omega

theorem div_le_roundHalfEven (num den : Nat) : num / den ≤ roundHalfEven num den := by
  unfold roundHalfEven
  simp only
  split_ifs <;> omega

theorem roundHalfEven_mono_left (positive : 0 < den) (le : num ≤ num') :
    roundHalfEven num den ≤ roundHalfEven num' den := by
  obtain ⟨-, lower⟩ := roundHalfEven_near num positive
  obtain ⟨upper, -⟩ := roundHalfEven_near num' positive
  by_contra more
  have far : 2 * (roundHalfEven num' den + 1) * den ≤ 2 * roundHalfEven num den * den :=
    Nat.mul_le_mul_right den (by omega)
  -- Both numbers lie halfway between the two integers, so they are the same.
  have same : num = num' := by nlinarith
  rw [same] at more
  exact more (Nat.le_refl _)

/-- Larger quotients are rounded to larger integers. -/
theorem roundHalfEven_mono (positive : 0 < den) (positive' : 0 < den')
    (le : num * den' ≤ num' * den) : roundHalfEven num den ≤ roundHalfEven num' den' := by
  have scaled : roundHalfEven (num' * den) (den' * den) = roundHalfEven num' den' :=
    roundHalfEven_mul_right positive
  rw [← roundHalfEven_mul_right positive', ← scaled, Nat.mul_comm den' den]
  exact roundHalfEven_mono_left (Nat.mul_pos positive positive') le

namespace Precision

variable {p : Precision} {m : Nat}

/-! ## Exponents -/

/-- The quotient has the exponent `t` in the format: all significant bits, or, with the exponent 0,
fewer of them. -/
structure HasExponent (p : Precision) (num den t : Nat) : Prop where
  lt : num < 2 * 2 ^ p.fracBits * (den * 2 ^ t)
  le : t ≠ 0 → 2 ^ p.fracBits * (den * 2 ^ t) ≤ num

theorem hasExponent_log2 (p : Precision) (num : Nat) (positive : 0 < den) :
    p.HasExponent num den ((num / den).log2 - p.fracBits) := by
  have regroup (e : Nat) : den * (2 ^ p.fracBits * 2 ^ e) = 2 ^ p.fracBits * (den * 2 ^ e) := by
    ring
  constructor
  · have below : num / den < 2 ^ (p.fracBits + ((num / den).log2 - p.fracBits) + 1) :=
      Nat.lt_of_lt_of_le Nat.lt_log2_self (Nat.pow_le_pow_right (by decide) (by omega))
    rw [Nat.div_lt_iff_lt_mul positive, Nat.pow_succ, Nat.pow_add] at below
    calc num < _ := below
      _ = _ := by ring
  · intro normal
    have nonzero : num / den ≠ 0 := by
      intro zero
      rw [zero] at normal
      exact normal (by simp)
    have above : 2 ^ (p.fracBits + ((num / den).log2 - p.fracBits)) ≤ num / den := by
      refine Nat.le_trans (Nat.pow_le_pow_right (by decide) ?_) (Nat.log2_self_le nonzero)
      omega
    rw [Nat.le_div_iff_mul_le positive, Nat.pow_add] at above
    calc _ = 2 ^ p.fracBits * 2 ^ ((num / den).log2 - p.fracBits) * den := by ring
      _ ≤ num := above

theorem exists_hasExponent (p : Precision) (num : Nat) (positive : 0 < den) :
    ∃ t, p.HasExponent num den t := ⟨_, p.hasExponent_log2 num positive⟩

/-- A quotient has one exponent. -/
theorem HasExponent.log2_eq (exponent : p.HasExponent num den t) (positive : 0 < den) :
    (num / den).log2 - p.fracBits = t := by
  have own := p.hasExponent_log2 num positive
  generalize (num / den).log2 - p.fracBits = s at own
  have grow {a b : Nat} (less : a < b) : 2 * (den * 2 ^ a) ≤ den * 2 ^ b := by
    have power : 2 ^ (a + 1) ≤ 2 ^ b := Nat.pow_le_pow_right (by decide) less
    rw [Nat.pow_succ] at power
    nlinarith
  have apart {a b : Nat} (less : a < b) (ha : p.HasExponent num den a)
      (hb : p.HasExponent num den b) : False := by
    have upper := ha.lt
    have lower := hb.le (by omega)
    have scaled := Nat.mul_le_mul_left (2 ^ p.fracBits) (grow less)
    nlinarith
  rcases Nat.lt_trichotomy s t with less | same | more
  · exact (apart less own exponent).elim
  · exact same
  · exact (apart more exponent own).elim

theorem HasExponent.roundUnits_eq (exponent : p.HasExponent num den t) (positive : 0 < den) :
    p.roundUnits num den =
      min p.infinity (t * 2 ^ p.fracBits + roundHalfEven num (den * 2 ^ t)) := by
  rw [roundUnits, exponent.log2_eq positive]

/-- The significand is at most the one of the next exponent, and it has all bits if the exponent is
not 0. -/
theorem HasExponent.significand_bounds (exponent : p.HasExponent num den t) (positive : 0 < den) :
    roundHalfEven num (den * 2 ^ t) ≤ 2 * 2 ^ p.fracBits ∧
      (t ≠ 0 → 2 ^ p.fracBits ≤ roundHalfEven num (den * 2 ^ t)) := by
  have scaled : 0 < den * 2 ^ t := Nat.mul_pos positive (Nat.two_pow_pos t)
  constructor
  · have below : num / (den * 2 ^ t) < 2 * 2 ^ p.fracBits :=
      (Nat.div_lt_iff_lt_mul scaled).mpr exponent.lt
    exact Nat.le_trans roundHalfEven_le below
  · intro normal
    have above : 2 ^ p.fracBits ≤ num / (den * 2 ^ t) :=
      (Nat.le_div_iff_mul_le scaled).mpr (exponent.le normal)
    exact Nat.le_trans above (div_le_roundHalfEven _ _)

/-! ## Monotony -/

/-- Larger numbers are rounded to larger magnitudes. -/
theorem roundUnits_mono (positive : 0 < den) (positive' : 0 < den')
    (le : num * den' ≤ num' * den) : p.roundUnits num den ≤ p.roundUnits num' den' := by
  obtain ⟨s, hs⟩ := p.exists_hasExponent num positive
  obtain ⟨t, ht⟩ := p.exists_hasExponent num' positive'
  rw [hs.roundUnits_eq positive, ht.roundUnits_eq positive']
  apply min_le_min_left
  have power (e : Nat) : 0 < 2 ^ e := Nat.two_pow_pos e
  rcases Nat.lt_trichotomy s t with less | rfl | more
  · have most := (hs.significand_bounds positive).1
    have least := (ht.significand_bounds positive').2 (by omega)
    have next : (s + 1) * 2 ^ p.fracBits ≤ t * 2 ^ p.fracBits := Nat.mul_le_mul_right _ less
    rw [Nat.succ_mul] at next
    omega
  · apply Nat.add_le_add_left
    apply roundHalfEven_mono (Nat.mul_pos positive (power s)) (Nat.mul_pos positive' (power s))
    calc num * (den' * 2 ^ s) = num * den' * 2 ^ s := by ring
      _ ≤ num' * den * 2 ^ s := Nat.mul_le_mul_right _ le
      _ = num' * (den * 2 ^ s) := by ring
  · have upper := Nat.mul_lt_mul_of_pos_right ht.lt positive
    have lower := Nat.mul_le_mul_right den' (hs.le (by omega))
    have double : 2 ^ (t + 1) ≤ 2 ^ s := Nat.pow_le_pow_right (by decide) more
    have scaled := Nat.mul_le_mul_left (2 ^ p.fracBits * den * den') double
    rw [Nat.pow_succ] at scaled
    nlinarith

/-- Equal quotients are rounded alike. -/
theorem roundUnits_congr (positive : 0 < den) (positive' : 0 < den')
    (same : num * den' = num' * den) : p.roundUnits num den = p.roundUnits num' den' :=
  Nat.le_antisymm (roundUnits_mono positive positive' (Nat.le_of_eq same))
    (roundUnits_mono positive' positive (Nat.le_of_eq same.symm))

/-! ## Distances -/

/-- The value with so many units of an exponent. -/
theorem units_add (most : n ≤ 2 * 2 ^ p.fracBits) (least : t ≠ 0 → 2 ^ p.fracBits ≤ n) :
    p.units (t * 2 ^ p.fracBits + n) = n * 2 ^ t := by
  have positive := Nat.two_pow_pos p.fracBits
  rcases Nat.lt_or_ge n (2 ^ p.fracBits) with small | large
  · obtain rfl : t = 0 := by
      by_contra normal
      exact Nat.not_lt_of_le (least normal) small
    rw [Nat.zero_mul, Nat.zero_add, units_of_lt small, Nat.pow_zero, Nat.mul_one]
  · rcases Nat.lt_or_eq_of_le most with inside | top
    · have normal : t * 2 ^ p.fracBits + n = (t + 1) * 2 ^ p.fracBits + (n - 2 ^ p.fracBits) := by
        rw [Nat.succ_mul]
        omega
      rw [normal, units_normal (by omega), Nat.add_sub_cancel' large]
    · have carry : t * 2 ^ p.fracBits + n = (t + 1 + 1) * 2 ^ p.fracBits + 0 := by
        rw [top]
        ring
      rw [carry, units_normal positive, top, Nat.pow_succ]
      ring

/-- Rounding moves a number by half a unit of its exponent at most. -/
theorem units_roundUnits_near (positive : 0 < den) (exponent : p.HasExponent num den t)
    (finite : p.roundUnits num den < p.infinity) :
    2 * num ≤ 2 * (p.units (p.roundUnits num den) * den) + den * 2 ^ t ∧
      2 * (p.units (p.roundUnits num den) * den) ≤ 2 * num + den * 2 ^ t := by
  obtain ⟨most, least⟩ := exponent.significand_bounds positive
  have scaled : 0 < den * 2 ^ t := Nat.mul_pos positive (Nat.two_pow_pos t)
  obtain ⟨upper, lower⟩ := roundHalfEven_near num scaled
  rw [exponent.roundUnits_eq positive] at finite ⊢
  rw [Nat.min_eq_right (by omega), units_add most least]
  generalize roundHalfEven num (den * 2 ^ t) = n at upper lower
  have value : n * 2 ^ t * den = n * (den * 2 ^ t) := by ring
  constructor
  · calc 2 * num ≤ (2 * n + 1) * (den * 2 ^ t) := upper
      _ = 2 * (n * 2 ^ t * den) + den * 2 ^ t := by ring
  · calc 2 * (n * 2 ^ t * den) = 2 * n * (den * 2 ^ t) := by ring
      _ ≤ 2 * num + den * 2 ^ t := lower

/-! ## Intervals -/

/-- The numbers of an interval, given in quarters of the least positive value. -/
def Interval.Contains (i : Interval) (x : ℚ) : Prop :=
  if i.closed then i.low ≤ x ∧ x ≤ i.high else i.low < x ∧ x < i.high

/-- What is contained lies between the ends, and strictly between them if these are left out. -/
theorem Interval.Contains.bounds {i : Interval} (positive : 0 < den)
    (contained : i.Contains (4 * num / den)) :
    i.low * den ≤ 4 * num ∧ 4 * num ≤ i.high * den ∧
      (i.closed = false → i.low * den < 4 * num ∧ 4 * num < i.high * den) := by
  have rational : (0 : ℚ) < den := by exact_mod_cast positive
  unfold Contains at contained
  rw [le_div_iff₀ rational, div_le_iff₀ rational, lt_div_iff₀ rational,
    div_lt_iff₀ rational] at contained
  split_ifs at contained with ends
  · refine ⟨by exact_mod_cast contained.1, by exact_mod_cast contained.2, fun free => ?_⟩
    rw [free] at ends
    cases ends
  · have lower : i.low * den < 4 * num := by exact_mod_cast contained.1
    have upper : 4 * num < i.high * den := by exact_mod_cast contained.2
    exact ⟨Nat.le_of_lt lower, Nat.le_of_lt upper, fun _ => ⟨lower, upper⟩⟩

theorem roundingInterval_small (small : m < 2 ^ p.fracBits) :
    p.roundingInterval m = ⟨4 * m - 2, 4 * m, 4 * m + 2, m % 2 == 0⟩ := by
  simp [roundingInterval, significand, shift, small, Nat.div_eq_of_lt small]

theorem roundingInterval_normal {q r : Nat} (small : r < 2 ^ p.fracBits) :
    p.roundingInterval ((q + 1) * 2 ^ p.fracBits + r) =
      ⟨(4 * (2 ^ p.fracBits + r) - if r = 0 ∧ q ≠ 0 then 1 else 2) * 2 ^ q,
        4 * (2 ^ p.fracBits + r) * 2 ^ q, (4 * (2 ^ p.fracBits + r) + 2) * 2 ^ q,
        (2 ^ p.fracBits + r) % 2 == 0⟩ := by
  simp [roundingInterval, significand_normal small, shift_normal small]

/-- An exponent and a significand nearest to a quotient make the magnitude that it is rounded to. -/
theorem HasExponent.roundUnits_eq_of_near {s : Nat} (exponent : p.HasExponent num den t)
    (positive : 0 < den) (finite : t * 2 ^ p.fracBits + s ≤ p.infinity)
    (lower : 2 * s * (den * 2 ^ t) ≤ 2 * num + den * 2 ^ t)
    (upper : 2 * num ≤ (2 * s + 1) * (den * 2 ^ t))
    (tie : s % 2 = 1 → 2 * s * (den * 2 ^ t) < 2 * num + den * 2 ^ t ∧
      2 * num < (2 * s + 1) * (den * 2 ^ t)) :
    p.roundUnits num den = t * 2 ^ p.fracBits + s := by
  have scaled : 0 < den * 2 ^ t := Nat.mul_pos positive (Nat.two_pow_pos t)
  rw [exponent.roundUnits_eq positive, roundHalfEven_eq_of_near scaled lower upper tie,
    Nat.min_eq_right finite]

section

variable {q r w : Nat} (positive : 0 < den)
include positive

/-- A number of the exponent of a magnitude with a hidden bit, within half a unit of it. -/
theorem roundUnits_eq_of_own_exponent (unit : w = den * 2 ^ q) (small : r < 2 ^ p.fracBits)
    (finite : (q + 1) * 2 ^ p.fracBits + r ≤ p.infinity) (above : q ≠ 0 → 2 ^ p.fracBits * w ≤ num)
    (lower : (4 * (2 ^ p.fracBits + r) - 2) * w ≤ 4 * num)
    (upper : 4 * num ≤ (4 * (2 ^ p.fracBits + r) + 2) * w)
    (strict : (2 ^ p.fracBits + r) % 2 = 1 → (4 * (2 ^ p.fracBits + r) - 2) * w < 4 * num ∧
      4 * num < (4 * (2 ^ p.fracBits + r) + 2) * w) :
    p.roundUnits num den = (q + 1) * 2 ^ p.fracBits + r := by
  have hidden := Nat.two_pow_pos p.fracBits
  have scaled : 0 < w := unit ▸ Nat.mul_pos positive (Nat.two_pow_pos q)
  have exponent : p.HasExponent num den q := by
    rw [unit] at above
    refine ⟨?_, above⟩
    rw [← unit]
    nlinarith
  have least : (4 * (2 ^ p.fracBits + r) - 2) * w + 2 * w = 4 * (2 ^ p.fracBits + r) * w := by
    rw [← Nat.add_mul, Nat.sub_add_cancel (by omega)]
  have whole : q * 2 ^ p.fracBits + (2 ^ p.fracBits + r) = (q + 1) * 2 ^ p.fracBits + r := by ring
  rw [← whole] at finite ⊢
  apply exponent.roundUnits_eq_of_near positive finite
  all_goals rw [← unit]
  · nlinarith
  · nlinarith
  · intro odd
    obtain ⟨above, below⟩ := strict odd
    constructor <;> nlinarith

/-- A number right below a power of two, within a quarter of its unit, has the exponent before. -/
theorem roundUnits_eq_of_power {e half : Nat} (unit : half = den * 2 ^ e)
    (finite : (e + 2) * 2 ^ p.fracBits ≤ p.infinity)
    (lower : (4 * 2 ^ p.fracBits - 1) * (2 * half) ≤ 4 * num)
    (below : num < 2 ^ p.fracBits * (2 * half)) :
    p.roundUnits num den = (e + 2) * 2 ^ p.fracBits := by
  have hidden := Nat.two_pow_pos p.fracBits
  have least : (4 * 2 ^ p.fracBits - 1) * (2 * half) + 2 * half = 8 * (2 ^ p.fracBits * half) := by
    rw [← Nat.succ_mul, Nat.succ_eq_add_one, Nat.sub_add_cancel (by omega)]
    ring
  have exponent : p.HasExponent num den e := by
    constructor
    · rw [← unit]
      nlinarith
    · intro _
      rw [← unit]
      nlinarith
  have whole : e * 2 ^ p.fracBits + 2 * 2 ^ p.fracBits = (e + 2) * 2 ^ p.fracBits := by ring
  rw [← whole] at finite ⊢
  apply exponent.roundUnits_eq_of_near positive finite
  all_goals rw [← unit]
  · nlinarith
  · nlinarith
  · intro odd
    omega

/-- The interval of a magnitude with a hidden bit, in units of its exponent. -/
theorem roundUnits_eq_of_normal (unit : w = den * 2 ^ q) (small : r < 2 ^ p.fracBits)
    (finite : (q + 1) * 2 ^ p.fracBits + r ≤ p.infinity)
    (lower : (4 * (2 ^ p.fracBits + r) - if r = 0 ∧ q ≠ 0 then 1 else 2) * w ≤ 4 * num)
    (upper : 4 * num ≤ (4 * (2 ^ p.fracBits + r) + 2) * w)
    (strict : (2 ^ p.fracBits + r) % 2 = 1 →
      (4 * (2 ^ p.fracBits + r) - if r = 0 ∧ q ≠ 0 then 1 else 2) * w < 4 * num ∧
        4 * num < (4 * (2 ^ p.fracBits + r) + 2) * w) :
    p.roundUnits num den = (q + 1) * 2 ^ p.fracBits + r := by
  have hidden := Nat.two_pow_pos p.fracBits
  have scaled : 0 < w := unit ▸ Nat.mul_pos positive (Nat.two_pow_pos q)
  have wider : (4 * (2 ^ p.fracBits + r) - 2) * w ≤
      (4 * (2 ^ p.fracBits + r) - if r = 0 ∧ q ≠ 0 then 1 else 2) * w :=
    Nat.mul_le_mul_right w (by split_ifs <;> omega)
  by_cases above : q ≠ 0 → 2 ^ p.fracBits * w ≤ num
  · apply roundUnits_eq_of_own_exponent positive unit small finite above (by omega) upper
    intro odd
    obtain ⟨first, last⟩ := strict odd
    exact ⟨Nat.lt_of_le_of_lt wider first, last⟩
  · obtain ⟨normal, less⟩ : q ≠ 0 ∧ num < 2 ^ p.fracBits * w := by
      rw [Classical.not_imp, Nat.not_le] at above
      exact above
    have power : r = 0 := by
      by_contra fraction
      have least : (4 * 2 ^ p.fracBits + 2) * w ≤ (4 * (2 ^ p.fracBits + r) - 2) * w :=
        Nat.mul_le_mul_right w (by omega)
      nlinarith
    obtain ⟨e, rfl⟩ := Nat.exists_eq_succ_of_ne_zero normal
    subst power
    rw [if_pos ⟨rfl, normal⟩, Nat.add_zero] at lower
    have double : w = 2 * (den * 2 ^ e) := by
      rw [unit, Nat.pow_succ]
      ring
    rw [double] at lower less
    exact roundUnits_eq_of_power positive rfl finite lower less

end

/-- The numbers of the interval of a magnitude are rounded to it. -/
theorem roundUnits_eq_of_contains (positive : 0 < den) (finite : m ≤ p.infinity)
    (contained : (p.roundingInterval m).Contains (4 * num / den)) : p.roundUnits num den = m := by
  obtain ⟨lower, upper, strict⟩ := contained.bounds positive
  rcases lt_or_eq_normal p m with small | ⟨q, r, small, rfl⟩
  · rw [roundingInterval_small small] at lower upper strict
    simp only [beq_eq_false_iff_ne] at lower upper strict
    have exponent : p.HasExponent num den 0 := by
      refine ⟨?_, fun normal => absurd rfl normal⟩
      nlinarith
    have least : 4 * m * den ≤ (4 * m - 2) * den + 2 * den := by
      rw [← Nat.add_mul]
      exact Nat.mul_le_mul_right den (by omega)
    have rounded := exponent.roundUnits_eq_of_near (s := m) positive (by omega)
      (by nlinarith) (by nlinarith) (fun odd => by
        obtain ⟨above, below⟩ := strict (by omega)
        constructor <;> nlinarith)
    omega
  · rw [roundingInterval_normal small] at lower upper strict
    simp only [beq_eq_false_iff_ne] at lower upper strict
    have regroup (n : Nat) : n * 2 ^ q * den = n * (den * 2 ^ q) := by ring
    simp only [regroup] at lower upper strict
    apply roundUnits_eq_of_normal positive rfl small finite lower upper
    intro odd
    exact strict (by omega)

/-- Nothing up to a half of the least positive value is rounded up to it. -/
theorem roundUnits_eq_zero (positive : 0 < den) (tiny : 2 * num ≤ den) :
    p.roundUnits num den = 0 := by
  refine roundUnits_eq_of_contains positive (Nat.zero_le _) ?_
  have rational : (0 : ℚ) < den := by exact_mod_cast positive
  have cast : (2 : ℚ) * num ≤ den := by exact_mod_cast tiny
  have high : (4 * num / den : ℚ) ≤ 2 := by
    rw [div_le_iff₀ rational]
    linarith
  rw [roundingInterval_small (Nat.two_pow_pos _), Interval.Contains]
  refine ⟨?_, by simpa using high⟩
  simp only [Nat.cast_zero, Nat.mul_zero, Nat.zero_sub]
  positivity

/-- What has as many units as the infinity would have is rounded to it. -/
theorem roundUnits_eq_infinity (positive : 0 < den) (huge : p.units p.infinity * den ≤ num) :
    p.roundUnits num den = p.infinity := by
  have least : p.roundUnits (p.units p.infinity) 1 ≤ p.roundUnits num den :=
    roundUnits_mono (by decide) positive (by simpa using huge)
  rw [roundUnits_units (Nat.le_refl _)] at least
  exact Nat.le_antisymm (p.roundUnits_le_infinity num den) least

end Precision

end Columnar

import Mathlib.Data.Rat.Floor
import Columnar.Proofs.Nearest

/-!
# Rounding half up

A double is rounded to an integer by the floor of its sum with one half, where the sum is a double
again. Below one half the sum is exact or stays below one, and from 2 ^ 53 on it is the number
itself. In between it is exact, or it is rounded between two doubles that have the same floor, up to
2 ^ 52; above, the sum of an odd integer and one half lies halfway between two integers, of which
the even one is taken.

## Main definitions

* `Binary.rational`: the number that a finite word stands for.
* `Overshoots`: the numbers whose sum with one half is rounded up to the next integer.

## Main statements

* `Binary.roundHalfUp_eq`: the integer that a double is rounded to.
-/

namespace Columnar.Binary

variable {p : Precision} {x : Binary p} {y z low high : Int}

/-! ## Sums in the double format -/

/-- The value of the double nearest to an integer, both in the least positive value. -/
def nearestScaled (y : Int) : Int := (ofScaled y : Binary .double).scaled

theorem nearestScaled_eq (y : Int) :
    nearestScaled y =
      if y < 0 then -(Precision.double.units (Precision.double.roundUnits y.natAbs 1) : Int)
      else Precision.double.units (Precision.double.roundUnits y.natAbs 1) := by
  have top := infinity_lt_signWeight .double
  have bound := Precision.double.roundUnits_le_infinity y.natAbs 1
  have small : Precision.double.roundUnits y.natAbs 1 < Precision.double.signWeight := by omega
  rw [nearestScaled, ofScaled, scaled, isNegative_ofParts small, magnitude_ofParts small]
  simp only [decide_eq_true_eq]

theorem nearestScaled_mono (le : y ≤ z) : nearestScaled y ≤ nearestScaled z := by
  have order {m n : Nat} (h : m ≤ n) : Precision.double.units (Precision.double.roundUnits m 1) ≤
      Precision.double.units (Precision.double.roundUnits n 1) :=
    Precision.units_le_units (Precision.roundUnits_mono (by decide) (by decide) (by omega))
  rw [nearestScaled_eq, nearestScaled_eq]
  split_ifs with below above
  · have smaller := order (m := z.natAbs) (n := y.natAbs) (by omega)
    omega
  · omega
  · omega
  · have larger := order (m := y.natAbs) (n := z.natAbs) (by omega)
    omega

/-- An integer of 53 significant bits, or a power of two beyond them, has a magnitude. -/
theorem exists_units_eq_of_le {c e : Nat} (few : c ≤ 2 ^ 53) (small : e ≤ 2044) :
    ∃ m ≤ Precision.double.infinity, Precision.double.units m = c * 2 ^ e := by
  rcases Nat.lt_or_eq_of_le few with less | rfl
  · obtain ⟨m, value, bound⟩ := Precision.exists_units_eq (p := .double) less e
    refine ⟨m, ?_, value⟩
    change m < (e + 2) * 2 ^ 52 at bound
    change m ≤ 2047 * 2 ^ 52
    omega
  · obtain ⟨m, value, bound⟩ := Precision.exists_units_eq (p := .double) (s := 2 ^ 52) (by decide)
      (e + 1)
    refine ⟨m, ?_, ?_⟩
    · change m < (e + 1 + 2) * 2 ^ 52 at bound
      change m ≤ 2047 * 2 ^ 52
      omega
    · rw [value, Nat.pow_succ 2 e]
      ring

theorem nearestScaled_eq_self {c : Int} {e : Nat} (few : c.natAbs ≤ 2 ^ 53) (small : e ≤ 2044) :
    nearestScaled (c * 2 ^ e) = c * 2 ^ e := by
  have same : (c * 2 ^ e).natAbs = c.natAbs * 2 ^ e := by
    rw [Int.natAbs_mul, Int.natAbs_pow]
    rfl
  obtain ⟨m, bound, value⟩ := exists_units_eq_of_le few small
  have exact : Precision.double.units (Precision.double.roundUnits (c * 2 ^ e).natAbs 1) =
      (c * 2 ^ e).natAbs := by
    rw [same, ← value, Precision.roundUnits_units bound]
  rw [nearestScaled_eq, exact]
  split_ifs <;> omega

/-- A sum between two doubles that have the same floor has this floor after rounding, too. -/
theorem ediv_nearestScaled {one : Int} (positive : 0 < one) (above : low ≤ y) (below : y ≤ high)
    (exact_low : nearestScaled low = low) (exact_high : nearestScaled high = high)
    (same : low / one = high / one) : nearestScaled y / one = y / one := by
  have lower := nearestScaled_mono above
  have upper := nearestScaled_mono below
  rw [exact_low] at lower
  rw [exact_high] at upper
  have first := Int.ediv_le_ediv positive lower
  have second := Int.ediv_le_ediv positive upper
  have third := Int.ediv_le_ediv positive above
  have fourth := Int.ediv_le_ediv positive below
  omega

theorem ediv_add_half {w : Int} (positive : 0 < w) (n : Int) : (n * (2 * w) + w) / (2 * w) = n := by
  rw [Int.add_comm, Int.add_mul_ediv_right _ _ (by omega),
    Int.ediv_eq_zero_of_lt (by omega) (by omega), Int.zero_add]

/-! ## The sum with one half by magnitude -/

section

variable {e : Nat} {w : Int} (room : e ≤ 2000) (unit : w = 2 ^ e)
include room unit

/-- Below one half, the sum stays below one but for the last number. -/
theorem ediv_nearestScaled_of_small (above : -(2 ^ 53 * w) ≤ y) (below : y ≤ 2 ^ 53 * w - 2 * w) :
    nearestScaled (y + 2 ^ 53 * w) / (2 ^ 54 * w) = (y + 2 ^ 53 * w) / (2 ^ 54 * w) := by
  have positive : 0 < w := unit ▸ Int.pow_pos (by decide)
  have factor : (2 ^ 53 - 1) * 2 ^ (e + 1) = 2 ^ 54 * w - 2 * w := by
    rw [unit, Int.pow_succ]
    ring
  have top : nearestScaled ((2 ^ 53 - 1) * 2 ^ (e + 1)) = (2 ^ 53 - 1) * 2 ^ (e + 1) :=
    nearestScaled_eq_self (by decide) (by omega)
  have bottom : nearestScaled (0 * 2 ^ 0) = 0 * 2 ^ 0 :=
    nearestScaled_eq_self (by decide) (by decide)
  rw [factor] at top
  rw [Int.zero_mul] at bottom
  have least : 0 ≤ y + 2 ^ 53 * w := by omega
  refine ediv_nearestScaled (by omega) least (by omega) bottom top ?_
  rw [Int.zero_ediv]
  exact (Int.ediv_eq_zero_of_lt (by omega) (by omega)).symm

/-- Between 2 ^ 53 units and one half more, there are no integers, and both ends are doubles. -/
theorem ediv_nearestScaled_of_carry {g n s : Nat} (whole : n * (4 * g) = 2 ^ 53)
    (least : 2 ^ 53 ≤ s) (most : s ≤ 2 ^ 53 + 2 * g) :
    nearestScaled (s * w) / (4 * g * w) = s * w / (4 * g * w) := by
  have positive : 0 < w := unit ▸ Int.pow_pos (by decide)
  have some : 0 < g := Nat.pos_of_ne_zero fun none => by simp [none] at whole
  have count : 0 < n := Nat.pos_of_ne_zero fun none => by simp [none] at whole
  have bound : 4 * g ≤ 2 ^ 53 := whole ▸ Nat.le_mul_of_pos_left (4 * g) count
  have low : nearestScaled (2 ^ 53 * w) = 2 ^ 53 * w :=
    unit ▸ nearestScaled_eq_self (by decide) (by omega)
  have high : nearestScaled ((2 ^ 53 + 2 * g) * w) = (2 ^ 53 + 2 * g) * w := by
    have regroup : ((2 ^ 53 + 2 * g) * w : Int) = (2 ^ 52 + g) * 2 ^ (e + 1) := by
      rw [unit, Int.pow_succ]
      ring
    rw [regroup]
    exact nearestScaled_eq_self (by omega) (by omega)
  have one : 0 < 4 * (g : Int) * w := Int.mul_pos (by omega) positive
  have split : (2 : Int) ^ 53 * w = n * (4 * g * w) := by
    have cast : (2 : Int) ^ 53 = n * (4 * g) := by exact_mod_cast whole.symm
    rw [cast]
    ring
  have first : 2 ^ 53 * w / (4 * g * w) = n := by
    rw [split, Int.mul_ediv_cancel _ (by omega)]
  have second : (2 ^ 53 + 2 * g) * w / (4 * g * w) = n := by
    have rest : 2 * (g : Int) * w / (4 * g * w) = 0 :=
      Int.ediv_eq_zero_of_lt (by positivity) (by nlinarith)
    rw [Int.add_mul, split, Int.add_comm, Int.add_mul_ediv_right _ _ (by omega), rest, Int.zero_add]
  exact ediv_nearestScaled one (Int.mul_le_mul_of_nonneg_right (by omega) (by omega))
    (Int.mul_le_mul_of_nonneg_right (by omega) (by omega)) low high (first.trans second.symm)

/-- Up to 2 ^ 52, the sum is exact or lies between two doubles that have its floor. -/
theorem ediv_nearestScaled_of_middle {M j : Nat} (few : M < 2 ^ 53) (small : j ≤ 52)
    (value : y = M * w ∨ y = -(M * w)) :
    nearestScaled (y + 2 ^ (52 - j) * w) / (2 ^ (53 - j) * w) =
      (y + 2 ^ (52 - j) * w) / (2 ^ (53 - j) * w) := by
  have exact {c : Int} (few : c.natAbs ≤ 2 ^ 53) : nearestScaled (c * w) = c * w :=
    unit ▸ nearestScaled_eq_self few (by omega)
  obtain ⟨h, half⟩ : ∃ h : Nat, h = 2 ^ (52 - j) := ⟨_, rfl⟩
  have bound : h ≤ 2 ^ 52 := half ▸ Nat.pow_le_pow_right (by decide) (by omega)
  have scaled : (2 : Int) ^ (52 - j) = h := by
    rw [half]
    norm_cast
  rw [scaled]
  rcases value with rfl | rfl
  · have sum : M * w + h * w = (M + h : Nat) * w := by
      push_cast
      ring
    by_cases fits : M + h ≤ 2 ^ 53
    · rw [sum, exact (by omega)]
    · have finer : j ≠ 52 := by
        rintro rfl
        omega
      obtain ⟨g, quarter⟩ : ∃ g : Nat, g = 2 ^ (51 - j) := ⟨_, rfl⟩
      have double : h = 2 * g := by
        rw [half, quarter, ← Nat.pow_succ']
        congr 1
        omega
      have whole : 2 ^ j * (4 * g) = 2 ^ 53 := by
        rw [quarter, ← Nat.mul_assoc, Nat.mul_right_comm, ← Nat.pow_add, (by decide : 4 = 2 ^ 2),
          ← Nat.pow_add]
        congr 1
        omega
      have one : (2 : Int) ^ (53 - j) = 4 * g := by
        have power : 2 ^ (53 - j) = 4 * g := by
          rw [quarter, (by decide : 4 = 2 ^ 2), ← Nat.pow_add]
          congr 1
          omega
        exact_mod_cast power
      rw [sum, one]
      exact ediv_nearestScaled_of_carry room unit whole (by omega) (by omega)
  · have regroup : -(M * w) + h * w = (-M + h : Int) * w := by ring
    rw [regroup, exact (by omega)]

/-- A magnitude of 54 bits loses the last of them. -/
theorem units_roundUnits_of_bits {c : Nat} (many : 2 ^ 53 ≤ c) (few : c < 2 ^ 54) :
    (Precision.double.units (Precision.double.roundUnits (c * 2 ^ e) 1) : Int) =
      roundHalfEven c 2 * (2 * w) := by
  have scale : 1 * 2 ^ (e + 1) = 2 * 2 ^ e := by rw [Nat.one_mul, Nat.pow_succ']
  have exponent : Precision.double.HasExponent (c * 2 ^ e) 1 (e + 1) := by
    have positive := Nat.two_pow_pos e
    refine ⟨?_, fun _ => ?_⟩ <;> rw [scale]
    · change c * 2 ^ e < 2 * 2 ^ 52 * (2 * 2 ^ e)
      nlinarith
    · change 2 ^ 52 * (2 * 2 ^ e) ≤ c * 2 ^ e
      nlinarith
  obtain ⟨most, least⟩ := exponent.significand_bounds (by decide)
  have halved : roundHalfEven (c * 2 ^ e) (1 * 2 ^ (e + 1)) = roundHalfEven c 2 := by
    rw [scale, roundHalfEven_mul_right (Nat.two_pow_pos e)]
  have finite : (e + 1) * 2 ^ Precision.double.fracBits + roundHalfEven c 2 ≤
      Precision.double.infinity := by
    rw [halved] at most
    change roundHalfEven c 2 ≤ 2 * 2 ^ 52 at most
    change (e + 1) * 2 ^ 52 + roundHalfEven c 2 ≤ 2047 * 2 ^ 52
    omega
  rw [halved] at most least
  rw [exponent.roundUnits_eq (by decide), halved, Nat.min_eq_right finite,
    Precision.units_add most least, unit, Int.natCast_mul, Int.natCast_pow, Int.pow_succ']
  rfl

/-- The sum of the last number below one half is rounded to one. -/
theorem nearestScaled_of_last : nearestScaled (2 ^ 53 * w - w + 2 ^ 53 * w) = 2 ^ 54 * w := by
  have positive : 0 < w := unit ▸ Int.pow_pos (by decide)
  have magnitude : (2 ^ 53 * w - w + 2 ^ 53 * w).natAbs = (2 ^ 54 - 1) * 2 ^ e := by
    have factor : 2 ^ 53 * w - w + 2 ^ 53 * w = (2 ^ 54 - 1) * 2 ^ e := by rw [← unit]; ring
    rw [factor, Int.natAbs_mul, Int.natAbs_pow]
    rfl
  have carry : roundHalfEven (2 ^ 54 - 1) 2 = 2 ^ 53 := by decide
  rw [nearestScaled_eq, if_neg (by omega), magnitude,
    units_roundUnits_of_bits room unit (by decide) (by decide), carry]
  push_cast
  ring

omit room in
theorem natAbs_mul_unit (c : Nat) : (c * w : Int).natAbs = c * 2 ^ e := by
  rw [Int.natAbs_mul, Int.natAbs_natCast, unit, Int.natAbs_pow]
  rfl

/-- From 2 ^ 52 to 2 ^ 53, the sum of an odd integer and one half is rounded to the even integer
above. -/
theorem nearestScaled_of_integer {M : Nat} (many : 2 ^ 52 ≤ M) (few : M < 2 ^ 53) :
    nearestScaled (M * (2 * w) + w) = (M + M % 2 : Nat) * (2 * w) := by
  have positive : 0 < w := unit ▸ Int.pow_pos (by decide)
  have sum : M * (2 * w) + w = (2 * M + 1 : Nat) * w := by
    push_cast
    ring
  have even : roundHalfEven (2 * M + 1) 2 = M + M % 2 := by
    unfold roundHalfEven
    simp only
    split_ifs <;> omega
  have sign : ¬ ((2 * M + 1 : Nat) * w : Int) < 0 := by
    have nonneg := Int.mul_nonneg (Int.natCast_nonneg (2 * M + 1)) (Int.le_of_lt positive)
    omega
  rw [sum, nearestScaled_eq, if_neg sign, natAbs_mul_unit unit,
    units_roundUnits_of_bits room unit (by omega) (by omega), even]

/-- The same below zero, save for the power of two, next to which there are doubles between the
integers. -/
theorem nearestScaled_of_negative_integer {M : Nat} (many : 2 ^ 52 < M) (few : M < 2 ^ 53) :
    nearestScaled (-M * (2 * w) + w) = (-M + (M % 2 : Nat)) * (2 * w) := by
  have positive : 0 < w := unit ▸ Int.pow_pos (by decide)
  have sum : -(M : Int) * (2 * w) + w = -((2 * M - 1 : Nat) * w) := by
    rw [Nat.cast_sub (by omega)]
    push_cast
    ring
  have even : roundHalfEven (2 * M - 1) 2 = M - M % 2 := by
    unfold roundHalfEven
    simp only
    split_ifs <;> omega
  have sign : -((2 * M - 1 : Nat) * w : Int) < 0 := by
    have above := Int.mul_pos (b := w) (a := (2 * M - 1 : Nat)) (by omega) positive
    omega
  rw [sum, nearestScaled_eq, if_pos sign, Int.natAbs_neg, natAbs_mul_unit unit,
    units_roundUnits_of_bits room unit (by omega) (by omega), even, Nat.cast_sub (Nat.mod_le _ _)]
  ring

theorem ediv_nearestScaled_of_integer {M : Nat} (many : 2 ^ 52 ≤ M) (few : M < 2 ^ 53)
    (value : y = M * (2 * w) ∨ y = -(M * (2 * w))) :
    nearestScaled (y + w) / (2 * w) = (y + w) / (2 * w) + (M % 2 : Nat) := by
  have positive : 0 < w := unit ▸ Int.pow_pos (by decide)
  have whole (n : Int) : n * (2 * w) / (2 * w) = n := Int.mul_ediv_cancel _ (by omega)
  rcases value with rfl | rfl
  · rw [ediv_add_half positive, nearestScaled_of_integer room unit many few, whole,
      Int.natCast_add]
  · rw [← Int.neg_mul, ediv_add_half positive]
    rcases Nat.lt_or_eq_of_le many with more | rfl
    · rw [nearestScaled_of_negative_integer room unit more few, whole]
    · -- One half above the negative power of two there is a double.
      have sum : -((2 ^ 52 : Nat) : Int) * (2 * w) + w = (1 - 2 ^ 53) * 2 ^ e := by
        rw [unit]
        push_cast
        ring
      rw [sum, nearestScaled_eq_self (by decide) (by omega), ← sum, ediv_add_half positive]
      rfl

omit room unit in
/-- What is off by a quarter of the last place at most is rounded to the number. -/
theorem units_roundUnits_of_quarter {M q n v : Nat} (many : 2 ^ 52 ≤ M) (few : M < 2 ^ 53)
    (finite : q ≤ 2045) (scale : v = 2 ^ q) (lower : 4 * (M * v) ≤ 4 * n + v)
    (upper : 4 * n ≤ 4 * (M * v) + v) :
    Precision.double.units (Precision.double.roundUnits n 1) = M * v := by
  have some : 0 < v := scale ▸ Nat.two_pow_pos q
  obtain ⟨r, rfl⟩ : ∃ r, M = 2 ^ 52 + r := ⟨M - 2 ^ 52, by omega⟩
  have fraction : r < 2 ^ Precision.double.fracBits := by
    change r < 2 ^ 52
    omega
  have bound : (q + 1) * 2 ^ 52 + r ≤ 2047 * 2 ^ 52 := by omega
  have rounded : Precision.double.roundUnits n 1 = (q + 1) * 2 ^ 52 + r := by
    apply Precision.roundUnits_eq_of_normal (p := .double) (w := v) (by decide) (by simp [scale])
      fraction bound
    · change (4 * (2 ^ 52 + r) - if r = 0 ∧ q ≠ 0 then 1 else 2) * v ≤ _
      have interval : (4 * (2 ^ 52 + r) - if r = 0 ∧ q ≠ 0 then 1 else 2) * v + v ≤
          4 * ((2 ^ 52 + r) * v) := by
        rw [← Nat.succ_mul, ← Nat.mul_assoc]
        exact Nat.mul_le_mul_right v (by split_ifs <;> omega)
      omega
    · change _ ≤ (4 * (2 ^ 52 + r) + 2) * v
      nlinarith
    · intro odd
      change (2 ^ 52 + r) % 2 = 1 at odd
      have inner : ¬ (r = 0 ∧ q ≠ 0) := by omega
      rw [if_neg inner]
      change (4 * (2 ^ 52 + r) - 2) * v < _ ∧ _ < (4 * (2 ^ 52 + r) + 2) * v
      have interval : (4 * (2 ^ 52 + r) - 2) * v + 2 * v = 4 * ((2 ^ 52 + r) * v) := by
        rw [← Nat.add_mul, ← Nat.mul_assoc]
        congr 1
        omega
      constructor
      · omega
      · nlinarith
  rw [rounded, scale]
  exact Precision.units_normal (p := .double) fraction

omit room in
/-- From 2 ^ 53 on, the sum is the number itself. -/
theorem nearestScaled_of_large {M q : Nat} (many : 2 ^ 52 ≤ M) (few : M < 2 ^ 53)
    (large : e + 2 ≤ q) (finite : q ≤ 2045) (value : y.natAbs = M * 2 ^ q) :
    nearestScaled (y + w) = y := by
  have positive : 0 < w := unit ▸ Int.pow_pos (by decide)
  obtain ⟨v, scale⟩ : ∃ v, v = 2 ^ q := ⟨_, rfl⟩
  have small : w.natAbs * 4 ≤ v := by
    have power : 2 ^ (e + 2) ≤ 2 ^ q := Nat.pow_le_pow_right (by decide) large
    rw [unit, Int.natAbs_pow, scale]
    rw [Nat.pow_add] at power
    exact power
  rw [← scale] at value
  have least : v ≤ y.natAbs := by
    rw [value]
    exact Nat.le_mul_of_pos_left v (by omega)
  have units := units_roundUnits_of_quarter (n := (y + w).natAbs) many few finite scale (by omega)
    (by omega)
  rw [nearestScaled_eq, units, ← value]
  split_ifs <;> omega

end

/-! ## The integer that a double is rounded to -/

/-- The number that a finite word stands for. -/
def rational (x : Binary p) : ℚ := x.scaled / 2 ^ p.unitExp

/-- The numbers whose sum with one half is rounded up to the next integer: the last double below one
half, and the odd integers of 53 bits. -/
def Overshoots (r : ℚ) : Prop :=
  r = 1 / 2 - 1 / 2 ^ 54 ∨
    r = r.num ∧ r.num % 2 = 1 ∧ 2 ^ 52 < r.num.natAbs ∧ r.num.natAbs < 2 ^ 53

instance (r : ℚ) : Decidable (Overshoots r) := inferInstanceAs (Decidable (_ ∨ _))

/-- The integer that a double is rounded to, if it is finite. -/
def nearestInteger (x : Binary p) : Option Int :=
  if x.isFinite then some (⌊x.rational + 1 / 2⌋ + if Overshoots x.rational then 1 else 0) else none

/-- A finite value has 53 bits but for its trailing zeros. -/
theorem exists_scaled {x : Binary .double} (finite : x.isFinite = true) :
    ∃ M q : Nat, M < 2 ^ 53 ∧ q ≤ 2045 ∧ (q ≠ 0 → 2 ^ 52 ≤ M) ∧
      (x.scaled = M * 2 ^ q ∨ x.scaled = -(M * 2 ^ q)) := by
  have bound : x.magnitude < Precision.double.infinity := of_decide_eq_true finite
  change x.magnitude < 2047 * 2 ^ 52 at bound
  have signs {M q : Nat} (value : Precision.double.units x.magnitude = M * 2 ^ q) :
      x.scaled = M * 2 ^ q ∨ x.scaled = -(M * 2 ^ q) := by
    have cast : (Precision.double.units x.magnitude : Int) = M * 2 ^ q := by exact_mod_cast value
    rw [scaled, cast]
    split_ifs
    · exact .inr rfl
    · exact .inl rfl
  rcases Precision.lt_or_eq_normal .double x.magnitude with small | ⟨q, r, small, same⟩
  · refine ⟨x.magnitude, 0, ?_, by omega, by simp, signs ?_⟩
    · change x.magnitude < 2 ^ 52 at small
      omega
    · rw [Precision.units_of_lt small, Nat.pow_zero, Nat.mul_one]
  · change r < 2 ^ 52 at small
    change x.magnitude = (q + 1) * 2 ^ 52 + r at same
    refine ⟨2 ^ 52 + r, q, by omega, by omega, by omega, signs ?_⟩
    rw [same]
    exact Precision.units_normal (p := .double) small

section

variable {x : Binary .double} {e : Nat} {w : Int} (last : e = 1020) (unit : w = 2 ^ e)
include last unit

theorem rational_eq : x.rational = x.scaled / (2 ^ 54 * w : ℤ) := by
  have power : Precision.double.unitExp = 54 + e := by rw [last]; rfl
  rw [rational, power, unit, pow_add]
  push_cast
  rfl

theorem floor_rational_add_half :
    ⌊x.rational + 1 / 2⌋ = (x.scaled + 2 ^ 53 * w) / (2 ^ 54 * w) := by
  have positive : 0 < w := unit ▸ Int.pow_pos (by decide)
  have quotient : x.rational + 1 / 2 = ((x.scaled + 2 ^ 53 * w : ℤ) : ℚ) / (2 ^ 54 * w : ℤ) := by
    have nonzero : (w : ℚ) ≠ 0 := by exact_mod_cast positive.ne'
    rw [rational_eq last unit]
    push_cast
    field_simp
    ring
  obtain ⟨d, denominator⟩ := Int.eq_ofNat_of_zero_le (a := 2 ^ 54 * w) (by omega)
  rw [quotient, denominator]
  exact Rat.floor_intCast_div_natCast _ d

/-- The two sorts of overshooting numbers in units of the least positive value. -/
theorem overshoots_iff :
    Overshoots x.rational ↔ x.scaled = 2 ^ 53 * w - w ∨
      ∃ n : ℤ, x.scaled = n * (2 ^ 54 * w) ∧ n % 2 = 1 ∧ 2 ^ 52 < n.natAbs ∧ n.natAbs < 2 ^ 53 := by
  have positive : 0 < w := unit ▸ Int.pow_pos (by decide)
  have nonzero : (w : ℚ) ≠ 0 := by exact_mod_cast positive.ne'
  have below : x.rational = 1 / 2 - 1 / 2 ^ 54 ↔ x.scaled = 2 ^ 53 * w - w := by
    have same : (1 / 2 - 1 / 2 ^ 54 : ℚ) = (2 ^ 53 * w - w : ℤ) / (2 ^ 54 * w : ℤ) := by
      push_cast
      field_simp
      ring
    have divisor : ((2 ^ 54 * w : ℤ) : ℚ) ≠ 0 := by
      push_cast
      positivity
    rw [rational_eq last unit, same, div_left_inj' divisor, Int.cast_inj]
  have whole (n : ℤ) : x.rational = n ↔ x.scaled = n * (2 ^ 54 * w) := by
    have divisor : ((2 ^ 54 * w : ℤ) : ℚ) ≠ 0 := by
      push_cast
      positivity
    rw [rational_eq last unit, div_eq_iff divisor, ← Int.cast_mul, Int.cast_inj]
  unfold Overshoots
  refine or_congr below ⟨?_, ?_⟩
  · rintro ⟨integer, odd, bounds⟩
    exact ⟨_, (whole _).mp integer, odd, bounds⟩
  · rintro ⟨n, value, odd, bounds⟩
    have integer := (whole n).mpr value
    have numerator : x.rational.num = n := by rw [integer, Rat.num_intCast]
    rw [numerator]
    exact ⟨integer, odd, bounds⟩

/-- Only the last number below one half overshoots below 2 ^ 52. -/
theorem not_overshoots_of_lt (less : x.scaled.natAbs < 2 ^ 52 * (2 ^ 54 * w))
    (other : x.scaled ≠ 2 ^ 53 * w - w) : ¬ Overshoots x.rational := by
  have positive : 0 < w := unit ▸ Int.pow_pos (by decide)
  rw [overshoots_iff last unit]
  rintro (same | ⟨n, value, -, many, -⟩)
  · exact other same
  · rw [value, Int.natAbs_mul, Int.natCast_mul, Int.natAbs_of_nonneg (a := 2 ^ 54 * w) (by omega)]
      at less
    have fewer := Int.lt_of_mul_lt_mul_right less (by omega)
    omega

section

variable {M q : Nat} {u : ℤ} (few : M < 2 ^ 53) (power : u = 2 ^ q)
  (value : x.scaled = M * u ∨ x.scaled = -(M * u))
include few power value

omit last unit few in
theorem natAbs_scaled : (x.scaled.natAbs : ℤ) = M * u := by
  have nonneg : 0 ≤ M * u :=
    Int.mul_nonneg (Int.natCast_nonneg M) (power ▸ Int.pow_nonneg (by decide))
  rcases value with value | value <;> omega

/-- Numbers up to one half. -/
theorem ediv_sum_of_small (low : q ≤ e) :
    nearestScaled (x.scaled + 2 ^ 53 * w) / (2 ^ 54 * w) =
      (x.scaled + 2 ^ 53 * w) / (2 ^ 54 * w) + if Overshoots x.rational then 1 else 0 := by
  have positive : 0 < w := unit ▸ Int.pow_pos (by decide)
  have size := natAbs_scaled power value
  by_cases overshoots : x.scaled = 2 ^ 53 * w - w
  · rw [if_pos ((overshoots_iff last unit).mpr (.inl overshoots)), overshoots,
      nearestScaled_of_last (by omega) unit, Int.ediv_self (by omega),
      Int.ediv_eq_zero_of_lt (by omega) (by omega), Int.zero_add]
  · have below : x.scaled.natAbs ≤ 2 ^ 53 * w - w ∧ x.scaled ≤ 2 ^ 53 * w - 2 * w := by
      rcases Nat.lt_or_eq_of_le low with less | rfl
      · have half : 2 * u ≤ w := by
          rw [power, unit, ← Int.pow_succ']
          exact pow_le_pow_right₀ (by decide) less
        have product : 2 * (M * u) ≤ (2 ^ 53 - 1) * w := by nlinarith
        omega
      · rw [power, ← unit] at size value
        obtain fewer | most : M ≤ 2 ^ 53 - 2 ∨ M = 2 ^ 53 - 1 := by omega
        · have product : M * w ≤ (2 ^ 53 - 2) * w :=
            Int.mul_le_mul_of_nonneg_right (by omega) (by omega)
          omega
        · rw [most] at size value
          omega
    have quiet := not_overshoots_of_lt last unit (x := x) (by omega) overshoots
    rw [ediv_nearestScaled_of_small (by omega) unit (by omega) below.2, if_neg quiet, Int.add_zero]

/-- Numbers up to 2 ^ 52. -/
theorem ediv_sum_of_middle (above : e < q) (below : q ≤ e + 53) :
    nearestScaled (x.scaled + 2 ^ 53 * w) / (2 ^ 54 * w) =
      (x.scaled + 2 ^ 53 * w) / (2 ^ 54 * w) + if Overshoots x.rational then 1 else 0 := by
  have positive : 0 < w := unit ▸ Int.pow_pos (by decide)
  have size := natAbs_scaled power value
  obtain ⟨j, rfl⟩ : ∃ j, q = e + 1 + j := ⟨q - (e + 1), by omega⟩
  have halves : 2 ^ 53 * w = 2 ^ (52 - j) * u := by
    rw [unit, power, ← Int.pow_add, ← Int.pow_add]
    congr 1
    omega
  have ones : 2 ^ 54 * w = 2 ^ (53 - j) * u := by
    rw [unit, power, ← Int.pow_add, ← Int.pow_add]
    congr 1
    omega
  have coarse : 2 * w ≤ u := by
    rw [power, unit, ← Int.pow_succ']
    exact pow_le_pow_right₀ (by decide) (by omega)
  have fine : u ≤ 2 ^ 53 * w := by
    rw [power, unit, ← Int.pow_add]
    exact pow_le_pow_right₀ (by decide) (by omega)
  have quiet : ¬ Overshoots x.rational := by
    apply not_overshoots_of_lt last unit
    · have product : M * u ≤ (2 ^ 53 - 1) * u :=
        Int.mul_le_mul_of_nonneg_right (by omega) (by omega)
      omega
    · -- The last number below one half is an odd multiple of a finer unit.
      have finer : u = 2 ^ j * (2 * w) := by
        rw [power, unit]
        ring
      intro same
      rcases value with value | value
      · have parity : (2 ^ 53 - 1) * w = 2 * (M * 2 ^ j) * w := by
          rw [value, finer] at same
          linarith
        have whole := Int.eq_of_mul_eq_mul_right (by omega) parity
        omega
      · omega
  rw [halves, ones, if_neg quiet, Int.add_zero,
    ediv_nearestScaled_of_middle (by omega) power few (by omega) value]

/-- Integers up to 2 ^ 53. -/
theorem ediv_sum_of_integer (many : 2 ^ 52 ≤ M) (same : q = e + 54) :
    nearestScaled (x.scaled + 2 ^ 53 * w) / (2 ^ 54 * w) =
      (x.scaled + 2 ^ 53 * w) / (2 ^ 54 * w) + if Overshoots x.rational then 1 else 0 := by
  have positive : 0 < w := unit ▸ Int.pow_pos (by decide)
  have half : 2 ^ 53 * w = 2 ^ (e + 53) := by rw [unit, Int.pow_add, Int.mul_comm]
  have one : 2 ^ 54 * w = 2 * (2 ^ 53 * w) := by ring
  have double : u = 2 ^ 54 * w := by rw [power, same, unit, Int.pow_add, Int.mul_comm]
  have size := natAbs_scaled power value
  have odd : Overshoots x.rational ↔ M % 2 = 1 := by
    rw [overshoots_iff last unit, ← double]
    constructor
    · rintro (below | ⟨n, same, odd, -, -⟩)
      · have product : 2 ^ 52 * u ≤ M * u := Int.mul_le_mul_of_nonneg_right (by omega) (by omega)
        omega
      · have magnitude : (n.natAbs : ℤ) * u = M * u := by
          rw [← size, same, Int.natAbs_mul, Int.natCast_mul,
            Int.natAbs_of_nonneg (a := u) (by omega)]
        have whole := Int.eq_of_mul_eq_mul_right (by omega) magnitude
        omega
    · intro odd
      rcases value with value | value
      · exact .inr ⟨M, value, by omega, by omega, by omega⟩
      · exact .inr ⟨-M, by rw [value, Int.neg_mul], by omega, by omega, by omega⟩
  have bit : ((M % 2 : Nat) : ℤ) = if Overshoots x.rational then 1 else 0 := by
    simp only [odd]
    split_ifs <;> omega
  rw [double, one] at value
  rw [one, ediv_nearestScaled_of_integer (by omega) half many few value, bit]

/-- Numbers from 2 ^ 53 on. -/
theorem ediv_sum_of_large (many : 2 ^ 52 ≤ M) (above : e + 54 < q) (finite : q ≤ 2045) :
    nearestScaled (x.scaled + 2 ^ 53 * w) / (2 ^ 54 * w) =
      (x.scaled + 2 ^ 53 * w) / (2 ^ 54 * w) + if Overshoots x.rational then 1 else 0 := by
  have positive : 0 < w := unit ▸ Int.pow_pos (by decide)
  have half : 2 ^ 53 * w = 2 ^ (e + 53) := by rw [unit, Int.pow_add, Int.mul_comm]
  have size := natAbs_scaled power value
  have magnitude : x.scaled.natAbs = M * 2 ^ q := by
    rw [power] at size
    exact_mod_cast size
  have coarse : u = 2 ^ (q - (e + 54)) * (2 ^ 54 * w) := by
    rw [power, unit, ← Int.pow_add, ← Int.pow_add]
    congr 1
    omega
  obtain ⟨n, whole, wide⟩ : ∃ n : ℤ, x.scaled = n * (2 ^ 54 * w) ∧ 2 ^ 53 ≤ n.natAbs := by
    have even : 2 ^ 1 ≤ 2 ^ (q - (e + 54)) := Nat.pow_le_pow_right (by decide) (by omega)
    have wide : 2 ^ 53 ≤ (M * 2 ^ (q - (e + 54)) : ℤ).natAbs := by
      rw [Int.natAbs_mul, Int.natAbs_pow]
      exact Nat.mul_le_mul many even
    rw [coarse, ← Int.mul_assoc] at value
    rcases value with value | value
    · exact ⟨_, value, wide⟩
    · exact ⟨_, by rw [value, ← Int.neg_mul], by rwa [Int.natAbs_neg]⟩
  have quiet : ¬ Overshoots x.rational := by
    rw [overshoots_iff last unit, whole]
    rintro (below | ⟨m, same, -, -, narrow⟩)
    · have multiple : n * 2 ^ 54 * w = (2 ^ 53 - 1) * w := by linarith
      have equal := Int.eq_of_mul_eq_mul_right (by omega) multiple
      omega
    · have equal := Int.eq_of_mul_eq_mul_right (by omega) same
      omega
  have floor : (n * (2 ^ 54 * w) + 2 ^ 53 * w) / (2 ^ 54 * w) = n := by
    have one : 2 ^ 54 * w = 2 * (2 ^ 53 * w) := by ring
    rw [one, ediv_add_half (by omega)]
  rw [nearestScaled_of_large half many few (by omega) finite magnitude, if_neg quiet,
    whole, floor, Int.mul_ediv_cancel _ (by omega), Int.add_zero]

end

/-- The floor of the sum is the one of the exact sum, or the next integer where it overshoots. -/
theorem ediv_nearestScaled_sum (finite : x.isFinite = true) :
    nearestScaled (x.scaled + 2 ^ 53 * w) / (2 ^ 54 * w) =
      (x.scaled + 2 ^ 53 * w) / (2 ^ 54 * w) + if Overshoots x.rational then 1 else 0 := by
  obtain ⟨M, q, few, bound, many, value⟩ := exists_scaled finite
  obtain ⟨u, power⟩ : ∃ u : ℤ, u = 2 ^ q := ⟨_, rfl⟩
  rw [← power] at value
  by_cases small : q ≤ e
  · exact ediv_sum_of_small last unit few power value small
  by_cases middle : q ≤ e + 53
  · exact ediv_sum_of_middle last unit few power value (by omega) middle
  by_cases integer : q = e + 54
  · exact ediv_sum_of_integer last unit few power value (many (by omega)) integer
  · exact ediv_sum_of_large last unit few power value (many (by omega)) (by omega) bound

end

theorem roundHalfUp_eq (x : Binary .double) : x.roundHalfUp = x.nearestInteger.filter fitsWide := by
  unfold roundHalfUp nearestInteger
  cases finite : x.isFinite with
  | false => rfl
  | true =>
    obtain ⟨e, last⟩ : ∃ e, e = 1020 := ⟨_, rfl⟩
    obtain ⟨w, unit⟩ : ∃ w : ℤ, w = 2 ^ e := ⟨_, rfl⟩
    have half : (2 : ℤ) ^ (Precision.double.unitExp - 1) = 2 ^ 53 * w := by
      have power : Precision.double.unitExp - 1 = 53 + e := by rw [last]; rfl
      rw [power, Int.pow_add, unit]
    have one : (2 : ℤ) ^ Precision.double.unitExp = 2 ^ 54 * w := by
      have power : Precision.double.unitExp = 54 + e := by rw [last]; rfl
      rw [power, Int.pow_add, unit]
    have sum := ediv_nearestScaled_sum last unit finite
    rw [nearestScaled] at sum
    simp only [if_true, half, one, sum, ← floor_rational_add_half last unit, Option.filter]

end Columnar.Binary

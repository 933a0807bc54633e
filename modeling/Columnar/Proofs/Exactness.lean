import Columnar.Binary.Rounding

/-!
# Rounding of values that need none

A value that a format has is rounded to itself, whatever quotient it is given as. A number with no
more significant bits than the format has, and within its range, is such a value. So every single is
a double and comes back from there unchanged, and integers of up to 53 bits are doubles, from where
they are rounded to a single just as they would be without the detour.
-/

namespace Columnar

variable {num den c n : Nat}

theorem roundHalfEven_mul_right (positive : 0 < c) :
    roundHalfEven (num * c) (den * c) = roundHalfEven num den := by
  have order (a b : Nat) : a * c < b * c ↔ a < b := Nat.mul_lt_mul_right positive
  unfold roundHalfEven
  rw [Nat.mul_div_mul_right _ _ positive, Nat.mul_mod_mul_right]
  simp only [← Nat.mul_assoc, order]

/-- A quotient without a remainder is not rounded. -/
theorem roundHalfEven_mul_self (positive : 0 < den) : roundHalfEven (n * den) den = n := by
  simp [roundHalfEven, Nat.mul_div_cancel n positive, positive]

theorem roundHalfEven_le : roundHalfEven num den ≤ num / den + 1 := by
  have bit : num / den % 2 < 2 := Nat.mod_lt _ (by decide)
  dsimp only [roundHalfEven]
  split
  · omega
  · split <;> omega

namespace Precision

variable {p : Precision} {m q r s e : Nat}

/-! ## Finite values by their magnitude -/

theorem units_of_lt (small : m < 2 ^ p.fracBits) : p.units m = m := by
  simp [units, significand, shift, small, Nat.div_eq_of_lt small]

theorem significand_normal (small : r < 2 ^ p.fracBits) :
    p.significand ((q + 1) * 2 ^ p.fracBits + r) = 2 ^ p.fracBits + r := by
  have hidden : ¬ (q + 1) * 2 ^ p.fracBits + r < 2 ^ p.fracBits := by
    rw [Nat.succ_mul]
    omega
  rw [significand, if_neg hidden, Nat.mul_comm, Nat.mul_add_mod, Nat.mod_eq_of_lt small]

theorem shift_normal (small : r < 2 ^ p.fracBits) :
    p.shift ((q + 1) * 2 ^ p.fracBits + r) = q := by
  rw [shift, Nat.mul_comm, Nat.mul_add_div (Nat.two_pow_pos _), Nat.div_eq_of_lt small,
    Nat.add_zero, Nat.add_sub_cancel]

theorem units_normal (small : r < 2 ^ p.fracBits) :
    p.units ((q + 1) * 2 ^ p.fracBits + r) = (2 ^ p.fracBits + r) * 2 ^ q := by
  rw [units, significand_normal small, shift_normal small]

/-- A magnitude is small, or it has a hidden bit, an exponent and a fraction. -/
theorem lt_or_eq_normal (p : Precision) (m : Nat) :
    m < 2 ^ p.fracBits ∨
      ∃ q r, r < 2 ^ p.fracBits ∧ m = (q + 1) * 2 ^ p.fracBits + r := by
  refine (Nat.lt_or_ge m (2 ^ p.fracBits)).imp_right fun large => ?_
  have split := Nat.div_add_mod m (2 ^ p.fracBits)
  have exponent : 0 < m / 2 ^ p.fracBits := Nat.div_pos large (Nat.two_pow_pos _)
  refine ⟨m / 2 ^ p.fracBits - 1, m % 2 ^ p.fracBits, Nat.mod_lt _ (Nat.two_pow_pos _), ?_⟩
  rw [Nat.sub_add_cancel exponent, Nat.mul_comm, split]

/-- The next magnitude is one unit of the exponent away. -/
theorem units_succ (p : Precision) (m : Nat) : p.units (m + 1) = p.units m + 2 ^ p.shift m := by
  have positive := Nat.two_pow_pos p.fracBits
  obtain small | ⟨q, r, small, rfl⟩ := lt_or_eq_normal p m
  · have low : p.shift m = 0 := by simp [shift, Nat.div_eq_of_lt small]
    rw [units_of_lt small, low]
    obtain next | top := Nat.lt_or_eq_of_le (Nat.succ_le_of_lt small)
    · rw [units_of_lt next, Nat.pow_zero]
    · have first : m + 1 = (0 + 1) * 2 ^ p.fracBits + 0 := by omega
      rw [first, units_normal positive]
      omega
  · rw [units_normal small, shift_normal small, ← Nat.succ_mul]
    obtain next | top := Nat.lt_or_eq_of_le (Nat.succ_le_of_lt small)
    · rw [Nat.add_assoc, units_normal next]
      rfl
    · have carry : (q + 1) * 2 ^ p.fracBits + r + 1 = (q + 1 + 1) * 2 ^ p.fracBits + 0 := by
        rw [Nat.add_assoc, ← Nat.succ_eq_add_one r, top, Nat.succ_mul (q + 1)]
        rfl
      have full : (2 ^ p.fracBits + r).succ = 2 ^ p.fracBits * 2 := by omega
      rw [carry, units_normal positive, full, Nat.add_zero, Nat.pow_succ, Nat.mul_assoc,
        Nat.mul_comm 2]

theorem units_lt_units_succ (p : Precision) (m : Nat) : p.units m < p.units (m + 1) := by
  have positive := Nat.two_pow_pos (p.shift m)
  rw [units_succ]
  omega

theorem units_le_units (h : m ≤ n) : p.units m ≤ p.units n := by
  induction h with
  | refl => exact Nat.le_refl _
  | step _ ih => exact Nat.le_trans ih (Nat.le_of_lt (units_lt_units_succ p _))

theorem le_of_units_le (h : p.units m ≤ p.units n) : m ≤ n := by
  refine Nat.le_of_not_lt fun larger => ?_
  have above : p.units (n + 1) ≤ p.units m := units_le_units larger
  have step := units_lt_units_succ p n
  omega

/-! ## Numbers that a format has -/

/-- A number with no more significant bits than the format has, but for trailing zeros, is a finite
value unless it is too large. -/
theorem exists_units_eq (few : s < 2 * 2 ^ p.fracBits) (e : Nat) :
    ∃ m, p.units m = s * 2 ^ e ∧ m < (e + 2) * 2 ^ p.fracBits := by
  induction e with
  | zero =>
    obtain small | large := Nat.lt_or_ge s (2 ^ p.fracBits)
    · exact ⟨s, by rw [units_of_lt small, Nat.pow_zero, Nat.mul_one], by omega⟩
    · have normal : p.units ((0 + 1) * 2 ^ p.fracBits + (s - 2 ^ p.fracBits)) = _ :=
        units_normal (by omega)
      exact ⟨_, by rw [normal, Nat.add_sub_cancel' large], by omega⟩
  | succ e ih =>
    -- Doubling moves a small magnitude up by itself and any other one by one exponent.
    obtain ⟨m, value, bound⟩ := ih
    rw [Nat.pow_succ, ← Nat.mul_assoc, ← value, Nat.succ_add, Nat.succ_mul]
    obtain small | ⟨q, r, small, rfl⟩ := lt_or_eq_normal p m
    · refine ⟨2 * m, ?_, by omega⟩
      obtain next | large := Nat.lt_or_ge (2 * m) (2 ^ p.fracBits)
      · rw [units_of_lt next, units_of_lt small, Nat.mul_comm]
      · have normal : p.units ((0 + 1) * 2 ^ p.fracBits + (2 * m - 2 ^ p.fracBits)) = _ :=
          units_normal (by omega)
        have same : (0 + 1) * 2 ^ p.fracBits + (2 * m - 2 ^ p.fracBits) = 2 * m := by omega
        rw [same, Nat.add_sub_cancel' large] at normal
        rw [normal, units_of_lt small, Nat.mul_comm m, Nat.pow_zero, Nat.mul_one]
    · refine ⟨(q + 1 + 1) * 2 ^ p.fracBits + r, ?_, ?_⟩
      · rw [units_normal small, units_normal small, Nat.pow_succ, Nat.mul_assoc]
      · rw [Nat.succ_mul (q + 1)]
        omega

/-! ## Exact rounding -/

theorem roundUnits_mul_right (positive : 0 < c) :
    p.roundUnits (num * c) (den * c) = p.roundUnits num den := by
  simp only [roundUnits, Nat.mul_div_mul_right _ _ positive, Nat.mul_right_comm den c,
    roundHalfEven_mul_right positive]

theorem roundUnits_le_infinity (p : Precision) (num den : Nat) :
    p.roundUnits num den ≤ p.infinity := Nat.min_le_left _ _

theorem roundUnits_one (p : Precision) (n : Nat) :
    p.roundUnits n 1 = min p.infinity
      ((n.log2 - p.fracBits) * 2 ^ p.fracBits + roundHalfEven n (2 ^ (n.log2 - p.fracBits))) := by
  simp [roundUnits]

/-- A value that the format has is rounded to itself. -/
theorem roundUnits_units (bound : m ≤ p.infinity) : p.roundUnits (p.units m) 1 = m := by
  rw [roundUnits_one]
  refine Eq.trans (congrArg _ ?_) (Nat.min_eq_right bound)
  obtain small | ⟨q, r, small, rfl⟩ := lt_or_eq_normal p m
  · have bits : m.log2 - p.fracBits = 0 := by
      obtain rfl | positive := Nat.eq_zero_or_pos m
      · simp
      · have few := (Nat.log2_lt (Nat.ne_of_gt positive)).mpr small
        omega
    have exact : roundHalfEven (m * 1) 1 = m := roundHalfEven_mul_self (by decide)
    rw [units_of_lt small, bits, Nat.zero_mul, Nat.zero_add]
    rwa [Nat.mul_one] at exact
  · have positive := Nat.two_pow_pos p.fracBits
    have bits : ((2 ^ p.fracBits + r) * 2 ^ q).log2 = p.fracBits + q := by
      have nonzero : (2 ^ p.fracBits + r) * 2 ^ q ≠ 0 :=
        Nat.ne_of_gt (Nat.mul_pos (by omega) (Nat.two_pow_pos q))
      refine (Nat.log2_eq_iff nonzero).mpr ⟨?_, ?_⟩
      · rw [Nat.pow_add]
        exact Nat.mul_le_mul_right _ (by omega)
      · rw [Nat.add_right_comm, Nat.pow_add _ (p.fracBits + 1), Nat.pow_succ]
        exact Nat.mul_lt_mul_of_pos_right (by omega) (Nat.two_pow_pos q)
    rw [units_normal small, bits, Nat.add_sub_cancel_left,
      roundHalfEven_mul_self (Nat.two_pow_pos q), Nat.succ_mul, Nat.add_assoc]

/-- A number of so many bits is rounded to a magnitude of no larger exponent. -/
theorem roundUnits_le (bits : n < 2 ^ (p.fracBits + e)) :
    p.roundUnits n 1 ≤ (e + 2) * 2 ^ p.fracBits := by
  rw [roundUnits_one]
  generalize exponent : n.log2 - p.fracBits = shift
  have few : n / 2 ^ shift < 2 ^ (p.fracBits + 1) := by
    rw [Nat.div_lt_iff_lt_mul (Nat.two_pow_pos shift), ← Nat.pow_add]
    exact Nat.lt_of_lt_of_le Nat.lt_log2_self (Nat.pow_le_pow_right (by decide) (by omega))
  have rounded : roundHalfEven n (2 ^ shift) ≤ n / 2 ^ shift + 1 := roundHalfEven_le
  have below : shift ≤ e := by
    obtain rfl | positive := Nat.eq_zero_or_pos n
    · simp at exponent
      omega
    · have log := (Nat.log2_lt (Nat.ne_of_gt positive)).mpr bits
      omega
  have scaled : shift * 2 ^ p.fracBits ≤ e * 2 ^ p.fracBits := Nat.mul_le_mul_right _ below
  rw [Nat.pow_succ] at few
  rw [Nat.add_mul]
  omega

end Precision

namespace Binary

variable {p : Precision} {negative : Bool} {m : Nat} {v : Int}

/-! ## Patterns and their parts -/

theorem infinity_lt_signWeight (p : Precision) : p.infinity < p.signWeight := by
  cases p <;> decide

theorem two_mul_signWeight (p : Precision) : 2 * p.signWeight = 2 ^ p.bits := by cases p <;> rfl

theorem isNegative_eq (x : Binary p) : x.isNegative = decide (p.signWeight ≤ x.toNat) :=
  BitVec.msb_eq_decide x

theorem ofParts_magnitude (x : Binary p) : ofParts x.isNegative x.magnitude = x := by
  have bound := x.isLt
  rw [← two_mul_signWeight] at bound
  apply BitVec.eq_of_toNat_eq
  rw [ofParts, isNegative_eq, magnitude, BitVec.toNat_ofNat, ← two_mul_signWeight]
  by_cases sign : p.signWeight ≤ x.toNat
  · have low : x.toNat % p.signWeight = x.toNat - p.signWeight := by
      rw [Nat.mod_eq_sub_mod sign, Nat.mod_eq_of_lt (by omega)]
    simp only [sign, decide_true, if_true, low]
    rw [Nat.add_sub_cancel' sign, Nat.mod_eq_of_lt bound]
  · have low : x.toNat % p.signWeight = x.toNat := Nat.mod_eq_of_lt (by omega)
    simp only [sign, decide_false, Bool.false_eq_true, if_false, low]
    exact Nat.mod_eq_of_lt bound

section

variable (small : m < p.signWeight)
include small

theorem toNat_ofParts :
    (ofParts negative m : Binary p).toNat = if negative then p.signWeight + m else m := by
  rw [ofParts, BitVec.toNat_ofNat, ← two_mul_signWeight]
  cases negative <;> exact Nat.mod_eq_of_lt (by simp; omega)

@[simp] theorem magnitude_ofParts : (ofParts negative m : Binary p).magnitude = m := by
  rw [magnitude, toNat_ofParts small]
  cases negative <;> simp [Nat.mod_eq_of_lt small]

@[simp] theorem isNegative_ofParts : (ofParts negative m : Binary p).isNegative = negative := by
  rw [isNegative_eq, toNat_ofParts small]
  cases negative <;> simp [small]

end

theorem isNaN_ofParts (bound : m ≤ p.infinity) : (ofParts negative m : Binary p).isNaN = false := by
  have top := infinity_lt_signWeight p
  rw [isNaN, magnitude_ofParts (by omega), decide_eq_false_iff_not]
  omega

theorem isInfinite_ofParts (bound : m ≤ p.infinity) :
    (ofParts negative m : Binary p).isInfinite = (m == p.infinity) := by
  have top := infinity_lt_signWeight p
  rw [isInfinite, magnitude_ofParts (by omega)]

theorem isFinite_ofParts (bound : m ≤ p.infinity) :
    (ofParts negative m : Binary p).isFinite = decide (m < p.infinity) := by
  have top := infinity_lt_signWeight p
  rw [isFinite, magnitude_ofParts (by omega)]

/-- A number is an infinity or has a finite magnitude. -/
theorem eq_ofParts {x : Binary p} (number : x.isNaN = false) :
    ∃ negative, x = ofParts negative p.infinity ∨ ∃ m < p.infinity, x = ofParts negative m := by
  have bound : ¬ p.infinity < x.magnitude := of_decide_eq_false number
  refine ⟨x.isNegative, ?_⟩
  obtain finite | infinite := Nat.lt_or_eq_of_le (Nat.le_of_not_lt bound)
  · exact .inr ⟨_, finite, (ofParts_magnitude x).symm⟩
  · exact .inl (by rw [← infinite, ofParts_magnitude])

/-! ## Conversion between the formats -/

/-- Conversion of a finite number rounds its value. -/
theorem convert_ofParts {q : Precision} (finite : m < p.infinity) :
    (ofParts negative m : Binary p).convert =
      (ofParts negative (q.roundUnits (p.units m * 2 ^ q.unitExp) (2 ^ p.unitExp)) : Binary q) := by
  have top := infinity_lt_signWeight p
  have number : (ofParts negative m : Binary p).isNaN = false := isNaN_ofParts (by omega)
  have inside : (ofParts negative m : Binary p).isInfinite = false := by
    rw [isInfinite_ofParts (by omega)]
    exact beq_false_of_ne (by omega)
  rw [convert, number, inside, isNegative_ofParts (by omega), magnitude_ofParts (by omega)]
  rfl

theorem convert_infinity {q : Precision} :
    (ofParts negative p.infinity : Binary p).convert =
      (ofParts negative q.infinity : Binary q) := by
  have number : (ofParts negative p.infinity : Binary p).isNaN = false := isNaN_ofParts (by omega)
  have outside : (ofParts negative p.infinity : Binary p).isInfinite = true := by
    rw [isInfinite_ofParts (by omega)]
    exact beq_self_eq_true _
  rw [convert, number, outside, isNegative_ofParts (infinity_lt_signWeight p)]
  rfl

/-- Conversion to a format that has the same value is exact. -/
theorem convert_ofParts_eq {q : Precision} {n : Nat} (finite : m < p.infinity)
    (bound : n ≤ q.infinity) (same : p.units m * 2 ^ q.unitExp = q.units n * 2 ^ p.unitExp) :
    (ofParts negative m : Binary p).convert = (ofParts negative n : Binary q) := by
  have exact : q.roundUnits (q.units n * 2 ^ p.unitExp) (1 * 2 ^ p.unitExp) = n := by
    rw [Precision.roundUnits_mul_right (Nat.two_pow_pos _), Precision.roundUnits_units bound]
  rw [Nat.one_mul] at exact
  rw [convert_ofParts finite, same, exact]

/-- The least positive single is the least positive double times two to this power. -/
def unitGap : Nat := 925

theorem unitExp_double : Precision.double.unitExp = unitGap + Precision.single.unitExp := rfl

/-- Every finite single has a double of the same value. -/
theorem exists_wide (finite : m < Precision.single.infinity) :
    ∃ n < Precision.double.infinity,
      Precision.single.units m * 2 ^ Precision.double.unitExp =
        Precision.double.units n * 2 ^ Precision.single.unitExp := by
  rw [unitExp_double, Nat.pow_add, ← Nat.mul_assoc]
  obtain small | ⟨q, r, small, rfl⟩ := Precision.lt_or_eq_normal .single m
  · rw [Precision.units_of_lt small]
    obtain ⟨n, value, bound⟩ := Precision.exists_units_eq (p := .double) (s := m)
      (Nat.lt_of_lt_of_le small (by decide)) unitGap
    exact ⟨n, Nat.lt_of_lt_of_le bound (by decide), by rw [value]⟩
  · rw [Precision.units_normal small, Nat.mul_assoc _ (2 ^ q), ← Nat.pow_add]
    have exponent : q < 254 := by
      change (q + 1) * 2 ^ 23 + r < 255 * 2 ^ 23 at finite
      omega
    have few : 2 ^ Precision.single.fracBits + r < 2 * 2 ^ Precision.double.fracBits := by
      change r < 2 ^ 23 at small
      change 2 ^ 23 + r < 2 * 2 ^ 52
      omega
    obtain ⟨n, value, bound⟩ := Precision.exists_units_eq few (q + unitGap)
    refine ⟨n, Nat.lt_of_lt_of_le bound ?_, by rw [value]⟩
    change (q + 925 + 2) * 2 ^ 52 ≤ 2047 * 2 ^ 52
    omega

/-- The largest finite single, as the magnitude of a double. -/
def largestSingle : Nat := (maxFinite (p := .single) |>.convert : Binary .double).magnitude

/-- No finite single is beyond the largest one, also among the doubles. -/
theorem le_largestSingle {n : Nat} (finite : m < Precision.single.infinity)
    (same : Precision.single.units m * 2 ^ Precision.double.unitExp =
      Precision.double.units n * 2 ^ Precision.single.unitExp) : n ≤ largestSingle := by
  have last : Precision.single.infinity - 1 < Precision.single.infinity := by decide
  obtain ⟨top, bound, value⟩ := exists_wide last
  have room := infinity_lt_signWeight .double
  have wide : (ofParts false (Precision.single.infinity - 1) : Binary .single).convert =
      (ofParts false top : Binary .double) :=
    convert_ofParts_eq last (Nat.le_of_lt bound) value
  rw [largestSingle, maxFinite, wide, magnitude_ofParts (by omega)]
  refine Precision.le_of_units_le (p := .double) ?_
  refine Nat.le_of_mul_le_mul_right ?_ (Nat.two_pow_pos Precision.single.unitExp)
  rw [← same, ← value]
  exact Nat.mul_le_mul_right _ (Precision.units_le_units (by omega))

/-- A double that is not beyond the singles is converted to one. -/
theorem ofDouble_single {y : Binary .double} (number : y.isNaN = false)
    (within : y.isFinite = true → y.magnitude ≤ largestSingle) :
    ofDouble .single y = some y.convert := by
  have inside : ¬ (y.isFinite && decide (largestSingle < y.magnitude)) = true := by
    rw [Bool.and_eq_true, decide_eq_true_eq]
    rintro ⟨finite, beyond⟩
    have bound := within finite
    omega
  rw [ofDouble, number]
  exact if_neg inside

theorem toDouble_infinity :
    (ofParts negative p.infinity : Binary p).toDouble =
      ofParts negative Precision.double.infinity := by
  cases p with
  | single => exact convert_infinity
  | double => rfl

theorem exists_toDouble (negative : Bool) (finite : m < p.infinity) :
    ∃ n < Precision.double.infinity,
      (ofParts negative m : Binary p).toDouble = ofParts negative n := by
  cases p with
  | single =>
    obtain ⟨n, bound, same⟩ := exists_wide finite
    exact ⟨n, bound, convert_ofParts_eq finite (Nat.le_of_lt bound) same⟩
  | double => exact ⟨m, finite, rfl⟩

/-- Widening a single loses nothing: converted back it is the same pattern. -/
theorem ofDouble_toDouble {x : Binary p} (number : x.isNaN = false) :
    ofDouble p x.toDouble = some x := by
  cases p with
  | double =>
    rw [ofDouble, toDouble, number]
    rfl
  | single =>
    obtain ⟨negative, rfl | ⟨m, finite, rfl⟩⟩ := eq_ofParts number
    · rw [toDouble_infinity, ofDouble_single (isNaN_ofParts (Nat.le_refl _)) ?_, convert_infinity]
      simp [isFinite_ofParts]
    · obtain ⟨n, bound, same⟩ := exists_wide finite
      have below : n ≤ largestSingle := le_largestSingle finite same
      have top := infinity_lt_signWeight .double
      have wide : (ofParts negative m : Binary .single).toDouble = ofParts negative n :=
        convert_ofParts_eq finite (Nat.le_of_lt bound) same
      rw [wide, ofDouble_single (isNaN_ofParts (Nat.le_of_lt bound))
          (fun _ => by rwa [magnitude_ofParts (by omega)]),
        convert_ofParts_eq bound (Nat.le_of_lt finite) same.symm]

theorem isNaN_toDouble {x : Binary p} (number : x.isNaN = false) : x.toDouble.isNaN = false := by
  obtain ⟨negative, rfl | ⟨m, finite, rfl⟩⟩ := eq_ofParts number
  · rw [toDouble_infinity]
    exact isNaN_ofParts (Nat.le_refl _)
  · obtain ⟨n, bound, wide⟩ := exists_toDouble negative finite
    rw [wide]
    exact isNaN_ofParts (Nat.le_of_lt bound)

theorem isInfinite_toDouble {x : Binary p} (infinite : x.isInfinite = true) :
    x.toDouble.isInfinite = true := by
  have top : x.magnitude = p.infinity := eq_of_beq infinite
  rw [← ofParts_magnitude x, top, toDouble_infinity, isInfinite_ofParts (Nat.le_refl _)]
  exact beq_self_eq_true _

/-! ## Integers -/

theorem ofInt_eq_ofParts (p : Precision) (v : Int) :
    (ofInt v : Binary p) =
      ofParts (decide (v < 0)) (p.roundUnits (v.natAbs * 2 ^ p.unitExp) 1) := rfl

/-- An integer is never rounded to a NaN. -/
theorem isNaN_ofInt (p : Precision) (v : Int) : (ofInt v : Binary p).isNaN = false :=
  isNaN_ofParts (p.roundUnits_le_infinity _ _)

/-- An integer of up to 64 bits is not beyond the singles. -/
theorem ofDouble_ofInt (bound : v.natAbs < 2 ^ 64) :
    ofDouble .single (ofInt v) = some (ofInt v : Binary .double).convert := by
  have top := infinity_lt_signWeight .double
  have limit := Precision.double.roundUnits_le_infinity
    (v.natAbs * 2 ^ Precision.double.unitExp) 1
  have bits : v.natAbs * 2 ^ Precision.double.unitExp < 2 ^ (Precision.double.fracBits + 1086) := by
    have total : Precision.double.fracBits + 1086 = 64 + Precision.double.unitExp := rfl
    rw [total, Nat.pow_add]
    exact Nat.mul_lt_mul_of_pos_right bound (Nat.two_pow_pos _)
  have rounded := Precision.roundUnits_le bits
  have single : (1086 + 2) * 2 ^ Precision.double.fracBits ≤ largestSingle := by decide +kernel
  refine ofDouble_single (isNaN_ofInt _ v) fun _ => ?_
  rw [ofInt_eq_ofParts, magnitude_ofParts (by omega)]
  exact Nat.le_trans rounded single

/-- An integer of up to 53 bits is a double, so that on its way to a single it is rounded once. -/
theorem convert_ofInt (bound : v.natAbs < 2 ^ 53) :
    (ofInt v : Binary .double).convert = (ofInt v : Binary .single) := by
  obtain ⟨n, value, below⟩ := Precision.exists_units_eq (p := .double) (s := v.natAbs) bound
    Precision.double.unitExp
  have finite : n < Precision.double.infinity := Nat.lt_of_lt_of_le below (by decide)
  have scaled : Precision.double.units n * 2 ^ Precision.single.unitExp =
      v.natAbs * 2 ^ Precision.single.unitExp * 2 ^ Precision.double.unitExp := by
    rw [value, Nat.mul_right_comm]
  rw [ofInt_eq_ofParts, ofInt_eq_ofParts, ← value,
    Precision.roundUnits_units (Nat.le_of_lt finite), convert_ofParts finite, scaled]
  have once : Precision.single.roundUnits
      (v.natAbs * 2 ^ Precision.single.unitExp * 2 ^ Precision.double.unitExp)
      (1 * 2 ^ Precision.double.unitExp) =
        Precision.single.roundUnits (v.natAbs * 2 ^ Precision.single.unitExp) 1 :=
    Precision.roundUnits_mul_right (Nat.two_pow_pos _)
  rw [← once, Nat.one_mul]

end Binary

end Columnar

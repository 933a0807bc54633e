import Mathlib.Tactic.FieldSimp
import Mathlib.Tactic.Positivity
import Columnar.Proofs.Nearest

/-!
# Shortest digits lie in the rounding interval

Whatever grid the shortest digits of a magnitude are found on, they lie in the interval of the
numbers that round to the magnitude, and no point of this grid is much nearer to the value: it is
the nearest point, or the next point towards the value and beyond is outside the interval. With
seventeen digits there is such a point, because a step of this grid is smaller than a half of the
interval.

## Main definitions

* `Decimal.value`: the number that a decimal stands for.
* `Precision.Interval.Spaced`: how far apart the points of a grid are around the value.

## Main statements

* `Precision.exists_shortest`: the shortest digits are a point of the interval that is spaced so.
-/

namespace Columnar

/-- A power of ten as a quotient of integers. -/
theorem ten_zpow_eq_div (e : ℤ) : (10 : ℚ) ^ e = (10 ^ e.toNat : ℕ) / (10 ^ (-e).toNat : ℕ) := by
  have split : e = e.toNat - (-e).toNat := by omega
  push_cast
  rw [← zpow_natCast, ← zpow_natCast, ← zpow_sub₀ (by norm_num), ← split]

/-- The number that a decimal stands for. -/
def Decimal.value (d : Decimal) : ℚ := d.digits * 10 ^ d.exponent

theorem Decimal.exists_quotient (d : Decimal) :
    ∃ num den : Nat, 0 < den ∧ d.value = num / den := by
  refine ⟨d.digits * 10 ^ d.exponent.toNat, 10 ^ (-d.exponent).toNat, Nat.pow_pos (by decide), ?_⟩
  rw [value, ten_zpow_eq_div, Nat.cast_mul, mul_div_assoc]

theorem Decimal.value_stripZeros (fuel : Nat) (d : Decimal) :
    (d.stripZeros fuel).value = d.value := by
  induction fuel generalizing d with
  | zero => rfl
  | succ fuel ih =>
    rw [stripZeros]
    split_ifs with trailing
    · have whole : (d.digits : ℚ) = (d.digits / 10 : ℕ) * 10 := by
        have split := Nat.div_add_mod d.digits 10
        have exact : d.digits / 10 * 10 = d.digits := by omega
        exact_mod_cast exact.symm
      rw [ih, value, value, whole, zpow_add_one₀ (by norm_num)]
      ring
    · rfl

/-! ## Leading digits -/

theorem lt_pow_digitCount (n : Nat) : n < 10 ^ digitCount n := by
  unfold digitCount
  split_ifs with zero
  · omega
  · exact (Nat.length_toDigits_le_iff (by decide) Nat.length_toDigits_pos).mp (Nat.le_refl _)

theorem pow_digitCount_le {n : Nat} (positive : 0 < n) : 10 ^ (digitCount n - 1) ≤ n := by
  have digits : 0 < (Nat.toDigits 10 n).length := Nat.length_toDigits_pos
  rw [digitCount, if_neg (by omega)]
  by_cases one : (Nat.toDigits 10 n).length = 1
  · rw [one]
    exact positive
  · have longer : ¬ (Nat.toDigits 10 n).length ≤ (Nat.toDigits 10 n).length - 1 := by omega
    rw [Nat.length_toDigits_le_iff (by decide) (by omega)] at longer
    omega

/-- A number is at least the power of ten of its leading digit. -/
theorem zpow_leadingExponent_le {num den : Nat} (some : 0 < num) (positive : 0 < den) :
    (10 : ℚ) ^ leadingExponent num den ≤ num / den := by
  have rational : (0 : ℚ) < den := by exact_mod_cast positive
  unfold leadingExponent
  split_ifs with large
  · have quotient : 0 < num / den := Nat.div_pos large positive
    have digits := pow_digitCount_le quotient
    have count : 0 < digitCount (num / den) := by
      rw [digitCount, if_neg (by omega)]
      exact Nat.length_toDigits_pos
    have power : ((digitCount (num / den) : ℤ) - 1) = (digitCount (num / den) - 1 : ℕ) := by omega
    rw [power, zpow_natCast, le_div_iff₀ rational]
    have product : 10 ^ (digitCount (num / den) - 1) * den ≤ num :=
      Nat.le_trans (Nat.mul_le_mul_right den digits) (Nat.div_mul_le_self num den)
    exact_mod_cast product
  · -- The reciprocal is rounded up, so that one less has as many digits as there are places.
    obtain ⟨c, ceiling⟩ : ∃ c, c = (den + num - 1) / num := ⟨_, rfl⟩
    have digits := lt_pow_digitCount (c - 1)
    have enough : den ≤ c * num := by
      have split := Nat.lt_div_mul_add (a := den + num - 1) some
      rw [← ceiling] at split
      omega
    have product : den ≤ 10 ^ digitCount (c - 1) * num :=
      Nat.le_trans enough (Nat.mul_le_mul_right num (by omega))
    rw [← ceiling, zpow_neg, zpow_natCast, inv_le_comm₀ (by positivity) (by positivity), inv_div,
      div_le_iff₀ (by exact_mod_cast some)]
    exact_mod_cast product

namespace Precision

variable {p : Precision} {m count : Nat} {d : Decimal}

/-! ## Points of a grid -/

/-- The points that are so far apart as `t` do not come nearer to the value of an interval than `r`:
the point is the nearest one, or the next one on the other side of the value is outside. -/
def Interval.Spaced (i : Interval) (r t : ℚ) : Prop :=
  2 * |r - i.value| ≤ t ∨ r ≤ i.value ∧ i.high ≤ r + t ∨ i.value ≤ r ∧ r - t ≤ i.low

/-- The test for a point of a grid, with cleared denominators. -/
theorem Interval.contains_iff (i : Interval) (n step : Nat) {unit : Nat} (positive : 0 < unit) :
    (if i.closed then decide (i.low * unit ≤ n * step) && decide (n * step ≤ i.high * unit)
      else decide (i.low * unit < n * step) && decide (n * step < i.high * unit)) = true ↔
      i.Contains (n * (step / unit)) := by
  have rational : (0 : ℚ) < unit := by exact_mod_cast positive
  unfold Contains
  rw [← mul_div_assoc, le_div_iff₀ rational, div_le_iff₀ rational, lt_div_iff₀ rational,
    div_lt_iff₀ rational]
  split_ifs
  · rw [Bool.and_eq_true, decide_eq_true_eq, decide_eq_true_eq]
    exact_mod_cast Iff.rfl
  · rw [Bool.and_eq_true, decide_eq_true_eq, decide_eq_true_eq]
    exact_mod_cast Iff.rfl

/-- A point that is no element although the value is before it lies at the upper end or behind. -/
theorem Interval.high_le {i : Interval} {r : ℚ} (ordered : i.low ≤ i.value) (above : i.value < r)
    (outside : ¬ i.Contains r) : i.high ≤ r := by
  have lower : (i.low : ℚ) ≤ i.value := by exact_mod_cast ordered
  unfold Contains at outside
  by_contra inner
  split_ifs at outside
  · exact outside ⟨by linarith, by linarith⟩
  · exact outside ⟨by linarith, by linarith⟩

theorem Interval.le_low {i : Interval} {r : ℚ} (ordered : i.value < i.high) (below : r ≤ i.value)
    (outside : ¬ i.Contains r) : r ≤ i.low := by
  have upper : (i.value : ℚ) < i.high := by exact_mod_cast ordered
  unfold Contains at outside
  by_contra inner
  split_ifs at outside
  · exact outside ⟨by linarith, by linarith⟩
  · exact outside ⟨by linarith, by linarith⟩

theorem roundingInterval_ordered (p : Precision) (m : Nat) :
    (p.roundingInterval m).low ≤ (p.roundingInterval m).value ∧
      (p.roundingInterval m).value < (p.roundingInterval m).high := by
  have scale := Nat.two_pow_pos (p.shift m)
  constructor
  · exact Nat.mul_le_mul_right _ (Nat.sub_le _ _)
  · exact Nat.mul_lt_mul_of_pos_right (by omega) scale

/-- Exponent of the grid with so many digits. -/
def gridExponent (p : Precision) (m count : Nat) : Int :=
  leadingExponent (p.roundingInterval m).value p.quarters - (count : Int) + 1

/-- A step of a grid in quarters of the least positive value. -/
def gridStep (p : Precision) (m count : Nat) : ℚ := 10 ^ p.gridExponent m count * p.quarters

theorem gridStep_eq (p : Precision) (m count : Nat) :
    p.gridStep m count = (10 ^ (p.gridExponent m count).toNat * p.quarters : ℕ) /
      (10 ^ (-p.gridExponent m count).toNat : ℕ) := by
  rw [gridStep, ten_zpow_eq_div, Nat.cast_mul, div_mul_eq_mul_div]

/-- The last point of a grid up to the value. -/
def gridFloor (p : Precision) (m count : Nat) : Nat :=
  (p.roundingInterval m).value * 10 ^ (-p.gridExponent m count).toNat /
    (10 ^ (p.gridExponent m count).toNat * p.quarters)

theorem gridFloor_bounds (p : Precision) (m count : Nat) :
    p.gridFloor m count * p.gridStep m count ≤ (p.roundingInterval m).value ∧
      (p.roundingInterval m).value < (p.gridFloor m count + 1) * p.gridStep m count := by
  have step_pos : 0 < 10 ^ (p.gridExponent m count).toNat * p.quarters :=
    Nat.mul_pos (Nat.pow_pos (by decide)) (Nat.two_pow_pos _)
  have unit_pos : 0 < 10 ^ (-p.gridExponent m count).toNat := Nat.pow_pos (by decide)
  rw [gridStep_eq, gridFloor]
  generalize 10 ^ (p.gridExponent m count).toNat * p.quarters = step at step_pos ⊢
  generalize 10 ^ (-p.gridExponent m count).toNat = unit at unit_pos ⊢
  generalize (p.roundingInterval m).value = v
  have rational : (0 : ℚ) < unit := by exact_mod_cast unit_pos
  have lower : v * unit / step * step ≤ v * unit := Nat.div_mul_le_self _ _
  have upper : v * unit < (v * unit / step + 1) * step := by
    rw [Nat.succ_mul]
    exact Nat.lt_div_mul_add step_pos
  constructor
  · rw [← mul_div_assoc, div_le_iff₀ rational]
    exact_mod_cast lower
  · rw [← mul_div_assoc, lt_div_iff₀ rational]
    exact_mod_cast upper

/-- The test which of the two points next to the value is nearer, with cleared denominators. -/
theorem gridStep_le_iff (p : Precision) (m count : Nat) :
    p.gridStep m count ≤
        2 * ((p.roundingInterval m).value - p.gridFloor m count * p.gridStep m count) ↔
      10 ^ (p.gridExponent m count).toNat * p.quarters ≤
        2 * ((p.roundingInterval m).value * 10 ^ (-p.gridExponent m count).toNat -
          p.gridFloor m count * (10 ^ (p.gridExponent m count).toNat * p.quarters)) := by
  have bounds := (gridFloor_bounds p m count).1
  have positive : 0 < 10 ^ (-p.gridExponent m count).toNat := Nat.pow_pos (by decide)
  rw [gridStep_eq] at bounds ⊢
  generalize 10 ^ (p.gridExponent m count).toNat * p.quarters = step at bounds ⊢
  generalize 10 ^ (-p.gridExponent m count).toNat = unit at bounds positive ⊢
  generalize p.gridFloor m count = n at bounds ⊢
  have rational : (0 : ℚ) < unit := by exact_mod_cast positive
  have order : n * step ≤ (p.roundingInterval m).value * unit := by
    rw [← mul_div_assoc, div_le_iff₀ rational] at bounds
    exact_mod_cast bounds
  have cleared : 2 * ((p.roundingInterval m).value - n * (step / unit : ℚ)) * unit =
      (2 * ((p.roundingInterval m).value * unit - n * step) : ℕ) := by
    push_cast [Nat.cast_sub order]
    field_simp
  rw [← mul_le_mul_iff_left₀ rational, cleared, div_mul_cancel₀ _ rational.ne']
  exact Nat.cast_le

/-- The point that is found among the two next to the value, if any. -/
theorem gridPoint?_eq (p : Precision) (m count : Nat) {t : ℚ} {n : Nat}
    (step : t = p.gridStep m count) (floor : n = p.gridFloor m count) :
    ((p.roundingInterval m).Contains (n * t) ∧ (p.roundingInterval m).Contains ((n + 1 : ℕ) * t) ∧
        p.gridPoint? m count =
          some ⟨if t ≤ 2 * ((p.roundingInterval m).value - n * t) then n + 1 else n,
            p.gridExponent m count⟩) ∨
      ((p.roundingInterval m).Contains (n * t) ∧
        ¬ (p.roundingInterval m).Contains ((n + 1 : ℕ) * t) ∧
        p.gridPoint? m count = some ⟨n, p.gridExponent m count⟩) ∨
      (¬ (p.roundingInterval m).Contains (n * t) ∧
        (p.roundingInterval m).Contains ((n + 1 : ℕ) * t) ∧
        p.gridPoint? m count = some ⟨n + 1, p.gridExponent m count⟩) ∨
      ¬ (p.roundingInterval m).Contains (n * t) ∧
        ¬ (p.roundingInterval m).Contains ((n + 1 : ℕ) * t) ∧ p.gridPoint? m count = none := by
  subst step floor
  have unit : 0 < 10 ^ (-p.gridExponent m count).toNat := Nat.pow_pos (by decide)
  have inside (k : Nat) := (p.roundingInterval m).contains_iff k
    (10 ^ (p.gridExponent m count).toNat * p.quarters) unit
  rw [← gridStep_eq] at inside
  have nearer := gridStep_le_iff p m count
  obtain ⟨found, result⟩ : ∃ found, p.gridPoint? m count = found := ⟨_, rfl⟩
  rw [← inside, ← inside, result]
  simp only [nearer]
  rw [gridPoint?] at result
  dsimp only at result
  split at result
  case h_1 first second =>
    rw [← result]
    simp only [decide_eq_true_eq]
    exact .inl ⟨first, second, rfl⟩
  case h_2 first second => exact .inr (.inl ⟨first, Bool.eq_false_iff.mp second, result.symm⟩)
  case h_3 first second =>
    exact .inr (.inr (.inl ⟨Bool.eq_false_iff.mp first, second, result.symm⟩))
  case h_4 first second =>
    exact .inr (.inr (.inr
      ⟨Bool.eq_false_iff.mp first, Bool.eq_false_iff.mp second, result.symm⟩))

/-- What is found on a grid lies in the interval, and the points of the grid around the value are
not much nearer to it. -/
theorem gridPoint?_spec (found : p.gridPoint? m count = some d) :
    (p.roundingInterval m).Contains (d.value * p.quarters) ∧
      (p.roundingInterval m).Spaced (d.value * p.quarters) (10 ^ d.exponent * p.quarters) := by
  obtain ⟨ordered, reaches⟩ := p.roundingInterval_ordered m
  obtain ⟨t, step⟩ : ∃ t, t = p.gridStep m count := ⟨_, rfl⟩
  obtain ⟨n, floor⟩ : ∃ n, n = p.gridFloor m count := ⟨_, rfl⟩
  obtain ⟨lower, upper⟩ := p.gridFloor_bounds m count
  rw [← step, ← floor] at lower upper
  have grid {k : Nat} (point : d = ⟨k, p.gridExponent m count⟩) :
      d.value * p.quarters = k * t ∧ 10 ^ d.exponent * (p.quarters : ℚ) = t := by
    subst point
    rw [Decimal.value, step, gridStep, mul_assoc]
    exact ⟨rfl, rfl⟩
  rcases p.gridPoint?_eq m count step floor with
    ⟨first, second, same⟩ | ⟨first, second, same⟩ | ⟨first, second, same⟩ | ⟨-, -, same⟩ <;>
    rw [same] at found
  · obtain ⟨value, power⟩ := grid (Option.some.inj found).symm
    rw [value, power]
    split_ifs with nearer
    · refine ⟨second, .inl ?_⟩
      push_cast
      rw [abs_of_pos (by linarith)]
      linarith
    · refine ⟨first, .inl ?_⟩
      rw [abs_of_nonpos (by linarith)]
      linarith
  · obtain ⟨value, power⟩ := grid (Option.some.inj found).symm
    rw [value, power]
    have above := Interval.high_le ordered (by push_cast; exact upper) second
    push_cast at above
    exact ⟨first, .inr (.inl ⟨lower, by linarith⟩)⟩
  · obtain ⟨value, power⟩ := grid (Option.some.inj found).symm
    rw [value, power]
    have below := Interval.le_low reaches lower first
    refine ⟨second, .inr (.inr ?_)⟩
    push_cast
    exact ⟨by linarith, by linarith⟩
  · cases found

/-- A grid with steps smaller than a half of the interval has a point in it. -/
theorem isSome_gridPoint? {t : ℚ} (step : t = p.gridStep m count)
    (below : t < 2 * ((p.roundingInterval m).value - (p.roundingInterval m).low))
    (above : t < 2 * ((p.roundingInterval m).high - (p.roundingInterval m).value)) :
    (p.gridPoint? m count).isSome = true := by
  obtain ⟨n, floor⟩ : ∃ n, n = p.gridFloor m count := ⟨_, rfl⟩
  obtain ⟨lower, upper⟩ := p.gridFloor_bounds m count
  rw [← step, ← floor] at lower upper
  rcases p.gridPoint?_eq m count step floor with
    ⟨-, -, same⟩ | ⟨-, -, same⟩ | ⟨-, -, same⟩ | ⟨first, second, same⟩
  · rw [same, Option.isSome_some]
  · rw [same, Option.isSome_some]
  · rw [same, Option.isSome_some]
  · -- The nearer one of the two points is in the interval.
    obtain ⟨ordered, reaches⟩ := p.roundingInterval_ordered m
    have high := Interval.high_le ordered (by push_cast; exact upper) second
    have low := Interval.le_low reaches lower first
    push_cast at high
    linarith

/-! ## Seventeen digits -/

theorem significand_lt (p : Precision) (m : Nat) : p.significand m < 2 * 2 ^ p.fracBits := by
  have hidden := Nat.two_pow_pos p.fracBits
  have rest := Nat.mod_lt m hidden
  unfold significand
  split_ifs <;> omega

/-- A half of the interval of a magnitude is at least a 2 ^ 54th of its value. -/
theorem value_le_half (bits : p.fracBits ≤ 52) (m : Nat) :
    ((p.roundingInterval m).value : ℚ) ≤
        2 ^ 54 * ((p.roundingInterval m).value - (p.roundingInterval m).low) ∧
      ((p.roundingInterval m).value : ℚ) ≤
        2 ^ 54 * ((p.roundingInterval m).high - (p.roundingInterval m).value) := by
  have small := p.significand_lt m
  have limit : 2 ^ p.fracBits ≤ 2 ^ 52 := Nat.pow_le_pow_right (by decide) bits
  have scale := Nat.two_pow_pos (p.shift m)
  have lower : (p.roundingInterval m).value + 2 ^ 54 * (p.roundingInterval m).low ≤
      2 ^ 54 * (p.roundingInterval m).value := by
    unfold roundingInterval
    dsimp only
    rw [← Nat.mul_assoc, ← Nat.mul_assoc, ← Nat.add_mul]
    exact Nat.mul_le_mul_right _ (by split_ifs <;> omega)
  have upper : (p.roundingInterval m).value + 2 ^ 54 * (p.roundingInterval m).value ≤
      2 ^ 54 * (p.roundingInterval m).high := by
    unfold roundingInterval
    dsimp only
    nlinarith
  constructor
  · have rational : ((p.roundingInterval m).value : ℚ) + 2 ^ 54 * (p.roundingInterval m).low ≤
        2 ^ 54 * (p.roundingInterval m).value := by exact_mod_cast lower
    linarith
  · have rational : ((p.roundingInterval m).value : ℚ) + 2 ^ 54 * (p.roundingInterval m).value ≤
        2 ^ 54 * (p.roundingInterval m).high := by exact_mod_cast upper
    linarith

theorem value_pos (positive : 0 < m) : 0 < (p.roundingInterval m).value := by
  have hidden := Nat.two_pow_pos p.fracBits
  have some : 0 < p.significand m := by
    unfold significand
    split_ifs <;> omega
  exact Nat.mul_pos (by omega) (Nat.two_pow_pos _)

/-- The grid with seventeen digits is finer than the interval. -/
theorem gridStep_lt (positive : 0 < m) :
    2 ^ 53 * p.gridStep m 17 < (p.roundingInterval m).value := by
  have quarters : 0 < p.quarters := Nat.two_pow_pos _
  have leading := zpow_leadingExponent_le (value_pos (p := p) positive) quarters
  have rational : (0 : ℚ) < p.quarters := by exact_mod_cast quarters
  have some : (0 : ℚ) < (p.roundingInterval m).value := by exact_mod_cast value_pos positive
  rw [le_div_iff₀ rational] at leading
  have power : p.gridStep m 17 * 10 ^ 16 =
      10 ^ leadingExponent (p.roundingInterval m).value p.quarters * p.quarters := by
    have exponent : leadingExponent (p.roundingInterval m).value p.quarters =
        p.gridExponent m 17 + (16 : ℕ) := by
      unfold gridExponent
      omega
    rw [gridStep, exponent, zpow_add₀ (by norm_num), zpow_natCast]
    ring
  linarith

/-- The shortest digits of a magnitude other than zero are a point of its interval, and the other
points of their grid are not much nearer to the value. -/
theorem exists_shortest (bits : p.fracBits ≤ 52) (positive : 0 < m) :
    ∃ d : Decimal, (p.shortest m).value = d.value ∧
      (p.roundingInterval m).Contains (d.value * p.quarters) ∧
      (p.roundingInterval m).Spaced (d.value * p.quarters) (10 ^ d.exponent * p.quarters) := by
  have found : (digitCounts.findSome? (p.gridPoint? m)).isSome = true := by
    rw [List.findSome?_isSome_iff]
    refine ⟨17, by decide, ?_⟩
    obtain ⟨below, above⟩ := value_le_half bits m
    have fine := gridStep_lt (p := p) positive
    exact isSome_gridPoint? rfl (by linarith) (by linarith)
  obtain ⟨d, first⟩ := Option.isSome_iff_exists.mp found
  obtain ⟨count, -, point⟩ := List.exists_of_findSome?_eq_some first
  obtain ⟨contained, spaced⟩ := gridPoint?_spec point
  refine ⟨d, ?_, contained, spaced⟩
  rw [shortest, first, Option.getD_some, Decimal.value_stripZeros]

end Precision

end Columnar

import Mathlib.Tactic.FieldSimp
import Mathlib.Tactic.Positivity
import Columnar.Proofs.ShortestDigits

/-!
# Shortest digits of singles read as doubles

The shortest digits of a single are rounded to a double first and to a single afterwards. This goes
wrong only if the double is halfway between two singles, which the digits themselves are not: then
the digits are very near to the point halfway, and their grid is as coarse as the singles there. For
one exponent of the singles, this makes a whole multiple of a power of ten nearly a whole multiple
of a power of two. `convergent` finds a denominator with which the two are compared modulo one; it
leaves a single pair of digits and significand.

## Main definitions

* `IsGuide`: a denominator that finds the nearly whole multiples of a fraction.
* `Precision.asDouble`: the double of a quotient; `Precision.doubleQuarters`: its value.

## Main statements

* `guides`: there is a guide for every exponent of the singles.
* `Precision.contains_doubleQuarters`: but for one magnitude, the double of the shortest digits of a
  single lies in the interval of the single.
* `Precision.roundUnits_of_contains`: such a double is rounded to the single.
-/

namespace Columnar

/-! ## Nearly whole multiples -/

/-- The largest denominator up to `limit` among the convergents of a fraction, whose remaining
quotient is `a / b` and whose last two denominators are `q₀` and `q₁`. -/
def convergent (limit : Nat) : (fuel a b q₀ q₁ : Nat) → Nat
  | 0, _, _, _, q₁ => q₁
  | fuel + 1, a, b, q₀, q₁ =>
    if b = 0 ∨ limit < a / b * q₁ + q₀ then q₁
    else convergent limit fuel b (a % b) q₁ (a / b * q₁ + q₀)

/-- The integer nearest to `q` times `a / b`. -/
def nearestMultiple (a b q : Nat) : Nat := (2 * q * a + b) / (2 * b)

/-- How far `q` times `a` is from the nearest multiple of `b`. -/
def multipleError (a b q : Nat) : Nat :=
  ((q * a : ℤ) - nearestMultiple a b q * b).natAbs

/-- A multiple `q` of `a / b` is so near to an integer, and the fraction made of them is in lowest
terms, that multiples of `a / b` which are as near to an integer are multiples of this one. -/
structure IsGuide (a b q : Nat) : Prop where
  pos : 0 < q
  near : q * b + 2 ^ 29 * (2 ^ 24 * multipleError a b q) < 2 ^ 29 * b
  coprime : q.Coprime (nearestMultiple a b q)
  coarse : b * (2 ^ 29 - 1) ≤ 2 ^ 28 * a

instance (a b q : Nat) : Decidable (IsGuide a b q) :=
  decidable_of_iff (0 < q ∧ q * b + 2 ^ 29 * (2 ^ 24 * multipleError a b q) < 2 ^ 29 * b ∧
      q.Coprime (nearestMultiple a b q) ∧ b * (2 ^ 29 - 1) ≤ 2 ^ 28 * a)
    ⟨fun ⟨pos, near, coprime, coarse⟩ => ⟨pos, near, coprime, coarse⟩,
      fun ⟨pos, near, coprime, coarse⟩ => ⟨pos, near, coprime, coarse⟩⟩

section

variable {a b q d n : Nat} (some : 0 < b) (bound : n < 2 ^ 25)
  (close : 2 ^ 29 * (d * a - n * b : ℤ).natAbs ≤ b)
include some bound close

/-- Steps of almost two reach a number of 25 bits in as many steps as 24 bits can count. -/
theorem le_of_coarse (coarse : b * (2 ^ 29 - 1) ≤ 2 ^ 28 * a) : d ≤ 2 ^ 24 := by
  have upper : 2 ^ 29 * (d * a) ≤ (2 ^ 29 * n + 1) * b := by
    have cast : (2 ^ 29 * (d * a) : ℤ) ≤ (2 ^ 29 * n + 1) * b := by
      have regroup : ((2 ^ 29 * n + 1) * b : ℤ) = 2 ^ 29 * (n * b) + b := by ring
      omega
    exact_mod_cast cast
  have steps : d * (2 ^ 30 - 2) * b ≤ (2 ^ 29 * n + 1) * b := by
    calc d * (2 ^ 30 - 2) * b = d * 2 * (b * (2 ^ 29 - 1)) := by ring
      _ ≤ d * 2 * (2 ^ 28 * a) := Nat.mul_le_mul_left _ coarse
      _ = 2 ^ 29 * (d * a) := by ring
      _ ≤ (2 ^ 29 * n + 1) * b := upper
  have few := Nat.le_of_mul_le_mul_right steps some
  omega

omit some bound in
/-- Two multiples that are so near to integers have these in the same proportion: they differ by
less than one step modulo one. -/
theorem mul_eq_mul_of_near {m : Nat} (few : d ≤ 2 ^ 24)
    (near : q * b + 2 ^ 29 * (2 ^ 24 * (q * a - m * b : ℤ).natAbs) < 2 ^ 29 * b) :
    d * m = n * q := by
  have identity : (q * (d * a - n * b) - d * (q * a - m * b) : ℤ) = (d * m - n * q) * b := by ring
  have first : 2 ^ 29 * (q * (d * a - n * b) : ℤ).natAbs ≤ q * b := by
    rw [Int.natAbs_mul, Int.natAbs_natCast, Nat.mul_left_comm]
    exact Nat.mul_le_mul_left q close
  have second : (d * (q * a - m * b) : ℤ).natAbs ≤ 2 ^ 24 * (q * a - m * b : ℤ).natAbs := by
    rw [Int.natAbs_mul, Int.natAbs_natCast]
    exact Nat.mul_le_mul_right _ few
  have small : ((d * m - n * q) * b : ℤ).natAbs < b := by
    rw [← identity]
    omega
  rw [Int.natAbs_mul, Int.natAbs_natCast] at small
  have none : (d * m - n * q : ℤ).natAbs = 0 := by
    by_contra more
    exact absurd small (Nat.not_lt.mpr (Nat.le_mul_of_pos_left b (by omega)))
  have same : (d * m : ℤ) = n * q := by omega
  exact_mod_cast same

/-- Where a multiple of `a / b` is nearly a whole number, the guide divides the multiplier. -/
theorem IsGuide.exists_eq (guide : IsGuide a b q) :
    ∃ c, d = c * q ∧ n = c * nearestMultiple a b q ∧ 2 ^ 29 * (c * multipleError a b q) ≤ b := by
  have few := le_of_coarse some bound close guide.coarse
  have near := guide.near
  have coprime := guide.coprime
  unfold multipleError at near ⊢
  generalize nearestMultiple a b q = m at near coprime ⊢
  have whole := mul_eq_mul_of_near close few near
  obtain ⟨c, rfl⟩ : q ∣ d := coprime.dvd_of_dvd_mul_right ⟨n, by rw [whole, Nat.mul_comm]⟩
  have multiple : n = c * m := by
    have cancelled : q * n = q * (c * m) := by rw [← Nat.mul_assoc, whole, Nat.mul_comm]
    exact Nat.eq_of_mul_eq_mul_left guide.pos cancelled
  refine ⟨c, Nat.mul_comm q c, multiple, ?_⟩
  have scaled : ((q * c : ℕ) * a - n * b : ℤ) = c * (q * a - m * b) := by
    rw [multiple]
    push_cast
    ring
  rw [scaled, Int.natAbs_mul, Int.natAbs_natCast] at close
  exact close

end

/-! ## One guide for each exponent -/

/-- The coarsest power of ten that is finer than singles of an exponent are apart, up to a 2 ^ 29th
of that. -/
def decimalPlace (s : Nat) : Int := -((149 - s : Int) * 30103 / 100000)

/-- The power of ten over the distance of singles, as a fraction: two units make one distance. -/
def stepNum (s : Nat) : Nat := 10 ^ (decimalPlace s).toNat * 2 ^ 151

def stepDen (s : Nat) : Nat := 2 ^ (s + 1) * 10 ^ (-decimalPlace s).toNat

theorem stepDen_pos (s : Nat) : 0 < stepDen s :=
  Nat.mul_pos (Nat.two_pow_pos _) (Nat.pow_pos (by decide))

def guide (s : Nat) : Nat :=
  convergent (2 ^ 27) 300 (stepDen s) (stepNum s % stepDen s) 0 1

/-- Every exponent of the singles has a guide, and the next finer power of ten is too fine. For all
but one of them the guide leaves no fraction: the multiple is whole, or it is not near enough, or
the integer next to it has too many bits. -/
theorem guides :
    ∀ s < 254, IsGuide (stepNum s) (stepDen s) (guide s) ∧
      2 ^ 28 * stepNum s < 10 * (stepDen s * (2 ^ 29 - 1)) ∧
      (s ≠ 42 → multipleError (stepNum s) (stepDen s) (guide s) = 0 ∨
        stepDen s < 2 ^ 29 * multipleError (stepNum s) (stepDen s) (guide s) ∨
        2 ^ 25 ≤ nearestMultiple (stepNum s) (stepDen s) (guide s)) := by
  decide +kernel

/-- The exponent whose guide leaves a fraction. -/
theorem guide_eq : guide 42 = 7038531 ∧
    nearestMultiple (stepNum 42) (stepDen 42) (guide 42) = 22841339 := by
  decide +kernel

/-- A point of the grid of an exponent that is nearly halfway between two singles is just there, but
for one of them. -/
theorem eq_of_near {s d n : Nat} (exponent : s < 254) (some : 0 < n) (bound : n < 2 ^ 25)
    (close : 2 ^ 29 * (d * stepNum s - n * stepDen s : ℤ).natAbs ≤ stepDen s) :
    d * stepNum s = n * stepDen s ∨ s = 42 ∧ n = 22841339 := by
  obtain ⟨guided, -, others⟩ := guides s exponent
  obtain ⟨c, steps, whole, near⟩ := guided.exists_eq (stepDen_pos s) bound close
  have times : 0 < c := Nat.pos_of_ne_zero fun none => by simp [whole, none] at some
  by_cases last : s = 42
  · obtain ⟨-, multiple⟩ := guide_eq
    rw [last, multiple] at whole
    exact .inr ⟨last, by omega⟩
  · left
    rcases others last with exact | far | long
    · have same : (guide s * stepNum s : ℤ) =
          nearestMultiple (stepNum s) (stepDen s) (guide s) * stepDen s := by
        rw [multipleError] at exact
        omega
      have scaled : (d * stepNum s : ℤ) = n * stepDen s := by
        rw [steps, whole]
        push_cast
        rw [mul_assoc, same, mul_assoc]
      exact_mod_cast scaled
    · have more := Nat.le_mul_of_pos_left (multipleError (stepNum s) (stepDen s) (guide s)) times
      omega
    · have more := Nat.le_mul_of_pos_left (nearestMultiple (stepNum s) (stepDen s) (guide s)) times
      omega

/-! ## Grids of decimals -/

variable {s : Nat} {w : ℚ}

theorem stepNum_eq (unit : w = 2 ^ (s + 1)) :
    (stepNum s : ℚ) * w = 10 ^ decimalPlace s * 2 ^ 151 * stepDen s := by
  rw [unit, stepNum, stepDen, ten_zpow_eq_div]
  push_cast
  field_simp
  norm_num

/-- A grid that is as coarse as the singles of an exponent has no points but multiples of its power
of ten. -/
theorem exists_multiple (unit : w = 2 ^ (s + 1)) (exponent : s < 254) {e : ℤ}
    (coarse : (2 ^ 29 - 1) * w ≤ 2 ^ 28 * (10 ^ e * 2 ^ 151)) (digits : Nat) :
    ∃ d : Nat, (digits * 10 ^ e * 2 ^ 151 : ℚ) * stepDen s = d * stepNum s * w := by
  have step := stepNum_eq unit
  have rational : (0 : ℚ) < stepDen s := by exact_mod_cast stepDen_pos s
  have some : 0 < w := unit ▸ pow_pos (by norm_num) _
  obtain ⟨-, fine, -⟩ := guides s exponent
  have enough : decimalPlace s ≤ e := by
    by_contra less
    have tenth : (10 : ℚ) ^ e * 10 ≤ 10 ^ decimalPlace s := by
      rw [← zpow_add_one₀ (by norm_num)]
      exact zpow_le_zpow_right₀ (by norm_num) (by omega)
    have small : (2 ^ 28 * stepNum s : ℚ) < 10 * (stepDen s * (2 ^ 29 - 1)) := by
      have cast : ((2 ^ 28 * stepNum s : ℕ) : ℚ) < (10 * (stepDen s * (2 ^ 29 - 1)) : ℕ) := by
        exact_mod_cast fine
      push_cast at cast
      norm_num at cast ⊢
      exact cast
    have product : 2 ^ 28 * stepNum s * w < 10 * (stepDen s * (2 ^ 29 - 1)) * w :=
      mul_lt_mul_of_pos_right small some
    nlinarith
  obtain ⟨n, shift⟩ := Int.eq_ofNat_of_zero_le (a := e - decimalPlace s) (by omega)
  have split : e = n + decimalPlace s := by omega
  refine ⟨digits * 10 ^ n, ?_⟩
  rw [mul_assoc _ _ w, step, split, zpow_add₀ (by norm_num), zpow_natCast]
  push_cast
  ring

/-- The distance of a multiple of the power of ten from one of `w`, counted in steps. -/
theorem natAbs_le_of_near {d n : Nat} {x : ℚ} (some : 0 < w)
    (multiple : x * stepDen s = d * stepNum s * w) (near : 2 ^ 29 * |x - n * w| ≤ w) :
    2 ^ 29 * (d * stepNum s - n * stepDen s : ℤ).natAbs ≤ stepDen s := by
  have rational : (0 : ℚ) < stepDen s := by exact_mod_cast stepDen_pos s
  have distance : (d * stepNum s - n * stepDen s : ℚ) * w = (x - n * w) * stepDen s := by
    rw [sub_mul, sub_mul, multiple]
    ring
  have scaled : 2 ^ 29 * |(d * stepNum s - n * stepDen s : ℚ)| * w ≤ stepDen s * w := by
    calc 2 ^ 29 * |(d * stepNum s - n * stepDen s : ℚ)| * w
        = 2 ^ 29 * |(d * stepNum s - n * stepDen s : ℚ) * w| := by
          rw [abs_mul, abs_of_pos some, mul_assoc]
      _ = 2 ^ 29 * |x - n * w| * stepDen s := by
          rw [distance, abs_mul, abs_of_pos rational, mul_assoc]
      _ ≤ w * stepDen s := mul_le_mul_of_nonneg_right near rational.le
      _ = stepDen s * w := mul_comm _ _
  have cast : (2 ^ 29 * (d * stepNum s - n * stepDen s : ℤ).natAbs : ℚ) ≤ stepDen s := by
    rw [Nat.cast_natAbs]
    push_cast
    exact le_of_mul_le_mul_right scaled some
  exact_mod_cast cast

/-- A point of a coarse grid that is nearly a multiple of `w` is just there, but for one of them. -/
theorem eq_mul_of_near (unit : w = 2 ^ (s + 1)) (exponent : s < 254) {e : ℤ} {digits n : Nat}
    (coarse : (2 ^ 29 - 1) * w ≤ 2 ^ 28 * (10 ^ e * 2 ^ 151)) (positive : 0 < n)
    (bound : n < 2 ^ 25) (near : 2 ^ 29 * |digits * 10 ^ e * 2 ^ 151 - n * w| ≤ w) :
    digits * 10 ^ e * 2 ^ 151 = n * w ∨ s = 42 ∧ n = 22841339 := by
  have some : 0 < w := unit ▸ pow_pos (by norm_num) _
  have rational : (0 : ℚ) < stepDen s := by exact_mod_cast stepDen_pos s
  obtain ⟨d, multiple⟩ := exists_multiple unit exponent coarse digits
  have close := natAbs_le_of_near some multiple near
  refine (eq_of_near exponent positive bound close).imp_left fun whole => ?_
  have steps : (d * stepNum s : ℚ) = n * stepDen s := by exact_mod_cast whole
  apply mul_right_cancel₀ rational.ne'
  calc digits * 10 ^ e * 2 ^ 151 * stepDen s = d * stepNum s * w := multiple
    _ = n * w * stepDen s := by
      rw [steps]
      ring

namespace Precision

variable {m num den : Nat}

/-! ## The double between -/

/-- A quarter of the least positive single is the least positive double times two to this power. -/
def quarterGap : Nat := 923

theorem pow_unitExp_double :
    2 ^ Precision.double.unitExp = Precision.single.quarters * 2 ^ quarterGap := by
  have power : Precision.double.unitExp = Precision.single.unitExp + 2 + quarterGap := rfl
  rw [power, quarters, Nat.pow_add]

/-- The number of singles' quarters in a quotient. -/
def inQuarters (num den : Nat) : ℚ := num / den * Precision.single.quarters

/-- The magnitude of the double that a quotient is rounded to. -/
def asDouble (num den : Nat) : Nat :=
  Precision.double.roundUnits (num * 2 ^ Precision.double.unitExp) den

theorem inQuarters_eq (num : Nat) (positive : 0 < den) :
    inQuarters num den * (2 ^ quarterGap * den) = (num * 2 ^ Precision.double.unitExp : ℕ) := by
  have rational : (den : ℚ) ≠ 0 := by exact_mod_cast positive.ne'
  rw [inQuarters, pow_unitExp_double]
  push_cast
  field_simp

/-- The value of a double in quarters of the least positive single. -/
def doubleQuarters (n : Nat) : ℚ := Precision.double.units n / 2 ^ quarterGap

/-- The ends of an interval are doubles. -/
theorem exists_doubleQuarters_eq {c j : Nat} (few : c < 2 ^ 53) (small : j ≤ 253) :
    ∃ n < Precision.double.infinity, doubleQuarters n = (c * 2 ^ j : ℕ) := by
  obtain ⟨n, value, bound⟩ := exists_units_eq (p := .double) few (j + quarterGap)
  have room : j + quarterGap + 2 ≤ 2047 := by
    unfold quarterGap
    omega
  have power : (2 : ℚ) ^ quarterGap ≠ 0 := pow_ne_zero _ (by norm_num)
  refine ⟨n, Nat.lt_of_lt_of_le bound (Nat.mul_le_mul_right (2 ^ 52) room), ?_⟩
  rw [doubleQuarters, value, div_eq_iff power]
  push_cast
  ring

theorem doubleQuarters_mono {n n' : Nat} (le : n ≤ n') : doubleQuarters n ≤ doubleQuarters n' := by
  have units : (Precision.double.units n : ℚ) ≤ Precision.double.units n' := by
    exact_mod_cast units_le_units le
  exact div_le_div_of_nonneg_right units (by positivity)

theorem doubleQuarters_le_iff {n : Nat} (positive : 0 < den) :
    doubleQuarters n ≤ inQuarters num den ↔
      Precision.double.units n * den ≤ num * 2 ^ Precision.double.unitExp := by
  have rational : (0 : ℚ) < den := by exact_mod_cast positive
  have power : (0 : ℚ) < 2 ^ quarterGap := pow_pos (by norm_num) _
  rw [doubleQuarters, div_le_iff₀ power, ← mul_le_mul_iff_left₀ rational, mul_assoc,
    inQuarters_eq num positive]
  exact_mod_cast Iff.rfl

theorem inQuarters_le_iff {n : Nat} (positive : 0 < den) :
    inQuarters num den ≤ doubleQuarters n ↔
      num * 2 ^ Precision.double.unitExp ≤ Precision.double.units n * den := by
  have rational : (0 : ℚ) < den := by exact_mod_cast positive
  have power : (0 : ℚ) < 2 ^ quarterGap := pow_pos (by norm_num) _
  rw [doubleQuarters, le_div_iff₀ power, ← mul_le_mul_iff_left₀ rational, mul_assoc,
    inQuarters_eq num positive]
  exact_mod_cast Iff.rfl

/-- A quotient is rounded to a double on the same side of any double. -/
theorem le_asDouble {n : Nat} (positive : 0 < den) (finite : n ≤ Precision.double.infinity)
    (le : doubleQuarters n ≤ inQuarters num den) : n ≤ asDouble num den := by
  have order := (doubleQuarters_le_iff positive).mp le
  rw [← roundUnits_units finite]
  exact roundUnits_mono (by decide) positive (by rwa [Nat.mul_one])

theorem asDouble_le {n : Nat} (positive : 0 < den) (finite : n ≤ Precision.double.infinity)
    (le : inQuarters num den ≤ doubleQuarters n) : asDouble num den ≤ n := by
  have order := (inQuarters_le_iff positive).mp le
  rw [← roundUnits_units finite]
  exact roundUnits_mono positive (by decide) (by rwa [Nat.mul_one])

/-- The unit of the double is a 2 ^ 28th of half the distance of singles, or finer. -/
theorem two_pow_le_of_hasExponent {s t scaled : Nat} {w x : ℚ} (positive : 0 < den)
    (unit : w = 2 ^ (s + 1)) (exponent : Precision.double.HasExponent scaled den t)
    (value : x * (2 ^ quarterGap * den) = scaled) (bound : x < 2 ^ 25 * w) :
    (2 : ℚ) ^ t * 2 ^ 28 ≤ w * 2 ^ quarterGap := by
  have rational : (0 : ℚ) < den := by exact_mod_cast positive
  have exponents : t + 28 ≤ s + 1 + quarterGap := by
    by_cases normal : t = 0
    · have gap : 28 ≤ quarterGap := by decide
      omega
    · have least : (2 ^ 52 * (den * 2 ^ t) : ℚ) ≤ scaled := by exact_mod_cast exponent.le normal
      have product : (2 ^ 52 * 2 ^ t : ℚ) * den < 2 ^ 25 * (w * 2 ^ quarterGap) * den := by
        calc (2 ^ 52 * 2 ^ t : ℚ) * den = 2 ^ 52 * (den * 2 ^ t) := by ring
          _ ≤ scaled := least
          _ = x * (2 ^ quarterGap * den) := value.symm
          _ < 2 ^ 25 * w * (2 ^ quarterGap * den) := by gcongr
          _ = 2 ^ 25 * (w * 2 ^ quarterGap) * den := by ring
      have cancelled := lt_of_mul_lt_mul_right product rational.le
      have small : (2 : ℚ) ^ (t + 27) < 2 ^ (s + 1 + quarterGap) := by
        rw [pow_add _ (s + 1), ← unit, pow_add]
        linarith
      have less := (pow_lt_pow_iff_right₀ (by norm_num : (1 : ℚ) < 2)).mp small
      omega
  rw [unit, ← pow_add, ← pow_add]
  exact pow_le_pow_right₀ (by norm_num) exponents

/-- The double is off by a 2 ^ 29th of half the distance of singles at most. -/
theorem doubleQuarters_near {s : Nat} {w : ℚ} (positive : 0 < den) (unit : w = 2 ^ (s + 1))
    (bound : inQuarters num den < 2 ^ 25 * w)
    (finite : asDouble num den < Precision.double.infinity) :
    2 ^ 29 * |inQuarters num den - doubleQuarters (asDouble num den)| ≤ w := by
  have rational : (0 : ℚ) < den := by exact_mod_cast positive
  have power : (0 : ℚ) < 2 ^ quarterGap := pow_pos (by norm_num) _
  have value := inQuarters_eq num positive
  unfold asDouble at finite ⊢
  generalize num * 2 ^ Precision.double.unitExp = scaled at value finite ⊢
  obtain ⟨t, exponent⟩ := Precision.double.exists_hasExponent scaled positive
  obtain ⟨upper, lower⟩ := units_roundUnits_near positive exponent finite
  have fine := two_pow_le_of_hasExponent positive unit exponent value bound
  obtain ⟨y, double⟩ : ∃ y, y = doubleQuarters (Precision.double.roundUnits scaled den) := ⟨_, rfl⟩
  have units : (Precision.double.units (Precision.double.roundUnits scaled den) : ℚ) =
      y * 2 ^ quarterGap := by rw [double, doubleQuarters, div_mul_cancel₀ _ power.ne']
  rw [← double]
  have above : (2 * scaled : ℚ) ≤ 2 * (y * 2 ^ quarterGap * den) + den * 2 ^ t := by
    rw [← units]
    exact_mod_cast upper
  have below : (2 * (y * 2 ^ quarterGap * den) : ℚ) ≤ 2 * scaled + den * 2 ^ t := by
    rw [← units]
    exact_mod_cast lower
  rw [← value] at above below
  have half : 2 * |inQuarters num den - y| * 2 ^ quarterGap * den ≤ 2 ^ t * den := by
    rcases abs_cases (inQuarters num den - y) with ⟨size, -⟩ | ⟨size, -⟩
    · rw [size]
      linarith
    · rw [size]
      linarith
  have cancelled := le_of_mul_le_mul_right half rational
  have total : 2 ^ 29 * |inQuarters num den - y| * 2 ^ quarterGap ≤ w * 2 ^ quarterGap := by
    linarith
  exact le_of_mul_le_mul_right total power

/-! ## Digits of singles -/

theorem Interval.Contains.ends {i : Interval} {x : ℚ} (contained : i.Contains x) :
    i.low ≤ x ∧ x ≤ i.high := by
  unfold Contains at contained
  split_ifs at contained
  · exact contained
  · exact ⟨contained.1.le, contained.2.le⟩

/-- What lies nearly at an end of an interval, as far as points of a grid are spaced around the
value, has a grid as coarse as the interval. -/
theorem Interval.Spaced.coarse {i : Interval} {r t w y : ℚ} (spaced : i.Spaced r t) (some : 0 < w)
    (near : 2 ^ 29 * |r - y| ≤ w) (low : (i.low : ℚ) = i.value - w)
    (high : (i.high : ℚ) = i.value + w) (side : y = i.low ∨ y = i.high) :
    (2 ^ 29 - 1) * w ≤ 2 ^ 28 * t := by
  have lower := neg_abs_le (r - y)
  have upper := le_abs_self (r - y)
  rcases spaced with nearest | ⟨below, outside⟩ | ⟨above, outside⟩
  · rcases side with rfl | rfl
    · have far := neg_abs_le (r - i.value)
      linarith
    · have far := le_abs_self (r - i.value)
      linarith
  · rcases side with rfl | rfl <;> linarith
  · rcases side with rfl | rfl <;> linarith

theorem shift_le (finite : m < Precision.single.infinity) : Precision.single.shift m ≤ 253 := by
  change m < 255 * 2 ^ 23 at finite
  change m / 2 ^ 23 - 1 ≤ 253
  omega

/-- A magnitude has one significand and exponent. -/
theorem eq_of_significand (exponent : Precision.single.shift m = 42)
    (significand : Precision.single.significand m = 11420669) : m = 0x15AE43FD := by
  rcases lt_or_eq_normal .single m with small | ⟨q, r, small, rfl⟩
  · have low : Precision.single.shift m = 0 := by simp [shift, Nat.div_eq_of_lt small]
    omega
  · rw [shift_normal small] at exponent
    rw [significand_normal small] at significand
    change 2 ^ 23 + r = 11420669 at significand
    change (q + 1) * 2 ^ 23 + r = _
    omega

/-- The interval of an odd significand, in halves of the distance of singles. -/
theorem roundingInterval_of_odd {w : ℚ} (unit : w = 2 ^ (Precision.single.shift m + 1))
    (odd : Precision.single.significand m % 2 = 1) :
    ((Precision.single.roundingInterval m).value : ℚ) = 2 * Precision.single.significand m * w ∧
      ((Precision.single.roundingInterval m).low : ℚ) =
        (2 * Precision.single.significand m - 1 : ℕ) * w ∧
      ((Precision.single.roundingInterval m).high : ℚ) =
        (2 * Precision.single.significand m + 1 : ℕ) * w ∧
      (Precision.single.roundingInterval m).closed = false := by
  have inner : ¬ (Precision.single.significand m = 2 ^ Precision.single.fracBits ∧
      Precision.single.shift m ≠ 0) := by
    rintro ⟨same, -⟩
    rw [same] at odd
    cases odd
  unfold roundingInterval
  simp only [if_neg inner]
  rw [unit, pow_succ]
  refine ⟨?_, ?_, ?_, by simp [odd]⟩
  · push_cast
    ring
  · have factor : 4 * Precision.single.significand m - 2 =
        2 * (2 * Precision.single.significand m - 1) := by omega
    rw [factor]
    push_cast
    ring
  · push_cast
    ring

section

variable {e : ℤ} {digits : Nat} (positive : 0 < den) (finite : m < Precision.single.infinity)
  (grid : (num / den : ℚ) = digits * 10 ^ e)
  (contained : (Precision.single.roundingInterval m).Contains (inQuarters num den))
  (spaced : (Precision.single.roundingInterval m).Spaced (inQuarters num den)
    (10 ^ e * Precision.single.quarters))
include positive finite contained

theorem doubleQuarters_bounds :
    (Precision.single.roundingInterval m).low ≤ doubleQuarters (asDouble num den) ∧
      doubleQuarters (asDouble num den) ≤ (Precision.single.roundingInterval m).high ∧
      asDouble num den < Precision.double.infinity := by
  have small := Precision.single.significand_lt m
  change Precision.single.significand m < 2 * 2 ^ 23 at small
  have exponent := shift_le finite
  have between := contained.ends
  obtain ⟨l, finite_low, low⟩ := exists_doubleQuarters_eq
    (c := 4 * Precision.single.significand m -
      if Precision.single.significand m = 2 ^ Precision.single.fracBits ∧
        Precision.single.shift m ≠ 0 then 1 else 2)
    (j := Precision.single.shift m) (by omega) exponent
  obtain ⟨h, finite_high, high⟩ := exists_doubleQuarters_eq
    (c := 4 * Precision.single.significand m + 2) (j := Precision.single.shift m) (by omega)
    exponent
  have first : l ≤ asDouble num den :=
    le_asDouble positive (Nat.le_of_lt finite_low) (low.trans_le between.1)
  have last : asDouble num den ≤ h :=
    asDouble_le positive (Nat.le_of_lt finite_high) (between.2.trans_eq high.symm)
  exact ⟨low.symm.trans_le (doubleQuarters_mono first),
    (doubleQuarters_mono last).trans_eq high, by omega⟩

include grid spaced

/-- The double is not an end of the interval of an odd significand, but for one. -/
theorem doubleQuarters_ne_end {n : Nat} {w : ℚ} (unit : w = 2 ^ (Precision.single.shift m + 1))
    (odd : Precision.single.significand m % 2 = 1) (other : m ≠ 0x15AE43FD)
    (side : n = 2 * Precision.single.significand m - 1 ∨
      n = 2 * Precision.single.significand m + 1) :
    doubleQuarters (asDouble num den) ≠ n * w := by
  intro same
  have small := Precision.single.significand_lt m
  change Precision.single.significand m < 2 * 2 ^ 23 at small
  have exponent := shift_le finite
  have some : 0 < w := unit ▸ pow_pos (by norm_num) _
  obtain ⟨value, low, high, open_ends⟩ := roundingInterval_of_odd unit odd
  obtain ⟨-, -, finite_double⟩ := doubleQuarters_bounds positive finite contained
  unfold Interval.Contains at contained
  rw [open_ends, low, high] at contained
  obtain ⟨above, below⟩ : _ ∧ _ := contained
  have bound : inQuarters num den < 2 ^ 25 * w := by
    refine below.trans_le (mul_le_mul_of_nonneg_right ?_ some.le)
    exact_mod_cast (by omega : 2 * Precision.single.significand m + 1 ≤ 2 ^ 25)
  have near := doubleQuarters_near positive unit bound finite_double
  have left : ((Precision.single.roundingInterval m).low : ℚ) =
      (Precision.single.roundingInterval m).value - w := by
    rw [low, value, Nat.cast_sub (by omega)]
    push_cast
    ring
  have right : ((Precision.single.roundingInterval m).high : ℚ) =
      (Precision.single.roundingInterval m).value + w := by
    rw [high, value]
    push_cast
    ring
  have ends : doubleQuarters (asDouble num den) = (Precision.single.roundingInterval m).low ∨
      doubleQuarters (asDouble num den) = (Precision.single.roundingInterval m).high := by
    rw [same, low, high]
    exact side.imp (fun h => by rw [h]) (fun h => by rw [h])
  have coarse := spaced.coarse some near left right ends
  have quarters : (Precision.single.quarters : ℚ) = 2 ^ 151 := by
    exact_mod_cast (rfl : Precision.single.quarters = 2 ^ 151)
  rw [quarters] at coarse
  rw [same, inQuarters, grid, quarters] at near
  rcases eq_mul_of_near unit (by omega) coarse (by omega) (by omega) near with equal | ⟨only, top⟩
  · -- The digits themselves would be the end, which they are not.
    rw [← quarters, ← grid] at equal
    rcases side with rfl | rfl
    · exact absurd equal above.ne'
    · exact absurd equal below.ne
  · exact other (eq_of_significand only (by omega))

/-- The double of the shortest digits of a single lies in the interval of the single. -/
theorem contains_doubleQuarters (other : m ≠ 0x15AE43FD) :
    (Precision.single.roundingInterval m).Contains (doubleQuarters (asDouble num den)) := by
  obtain ⟨lower, upper, -⟩ := doubleQuarters_bounds positive finite contained
  unfold Interval.Contains
  split_ifs with even
  · exact ⟨lower, upper⟩
  · obtain ⟨w, unit⟩ : ∃ w : ℚ, w = 2 ^ (Precision.single.shift m + 1) := ⟨_, rfl⟩
    have odd : Precision.single.significand m % 2 = 1 := by
      change ¬ (Precision.single.significand m % 2 == 0) = true at even
      rw [beq_iff_eq] at even
      omega
    obtain ⟨-, low, high, -⟩ := roundingInterval_of_odd unit odd
    have off {n : Nat} := doubleQuarters_ne_end (n := n) positive finite grid contained spaced unit
      odd other
    have first := off (.inl rfl)
    have last := off (.inr rfl)
    rw [← low] at first
    rw [← high] at last
    exact ⟨lower.lt_of_ne first.symm, upper.lt_of_ne last⟩

end

/-- A double in the interval of a single is rounded to it. -/
theorem roundUnits_of_contains {n : Nat} (finite : m < Precision.single.infinity)
    (inside : (Precision.single.roundingInterval m).Contains (doubleQuarters n)) :
    Precision.single.roundUnits (Precision.double.units n * 2 ^ Precision.single.unitExp)
      (2 ^ Precision.double.unitExp) = m := by
  refine roundUnits_eq_of_contains (Nat.two_pow_pos _) (Nat.le_of_lt finite) ?_
  have quotient : 4 * ((Precision.double.units n * 2 ^ Precision.single.unitExp : ℕ) : ℚ) /
      (2 ^ Precision.double.unitExp : ℕ) = doubleQuarters n := by
    rw [pow_unitExp_double, quarters, Nat.pow_add, doubleQuarters]
    push_cast
    field_simp
  rwa [quotient]

/-- The double is not beyond the largest single, unless the single is the largest one itself. -/
theorem asDouble_le_largestSingle (positive : 0 < den)
    (contained : (Precision.single.roundingInterval m).Contains (inQuarters num den))
    (inner : m + 1 < Precision.single.infinity) :
    asDouble num den ≤ Binary.largestSingle := by
  obtain ⟨n, bound, same⟩ := Binary.exists_wide inner
  have next : (Precision.single.roundingInterval m).high ≤ 4 * Precision.single.units (m + 1) := by
    rw [units_succ]
    change (4 * Precision.single.significand m + 2) * 2 ^ Precision.single.shift m ≤
      4 * (Precision.single.significand m * 2 ^ Precision.single.shift m +
        2 ^ Precision.single.shift m)
    have power := Nat.two_pow_pos (Precision.single.shift m)
    nlinarith
  have double : doubleQuarters n = (4 * Precision.single.units (m + 1) : ℕ) := by
    have power : (2 ^ quarterGap : ℚ) ≠ 0 := pow_ne_zero _ (by norm_num)
    rw [doubleQuarters, div_eq_iff power]
    rw [pow_unitExp_double, quarters, Nat.pow_add] at same
    have cancelled : Precision.double.units n =
        4 * Precision.single.units (m + 1) * 2 ^ quarterGap := by
      apply Nat.eq_of_mul_eq_mul_right (Nat.two_pow_pos Precision.single.unitExp)
      rw [← same]
      ring
    exact_mod_cast cancelled
  have below : inQuarters num den ≤ doubleQuarters n := by
    rw [double]
    exact contained.ends.2.trans (by exact_mod_cast next)
  exact Nat.le_trans (asDouble_le positive (Nat.le_of_lt bound) below)
    (Binary.le_largestSingle inner same)

end Precision

end Columnar

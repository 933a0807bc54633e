import Mathlib.Data.Rat.Cast.Order
import Mathlib.Order.WithBot
import Columnar.Proofs.Exactness
import Columnar.Proofs.Promotion

/-!
# The order of words by their values

Words are ordered like what they stand for: integers by their size, floating numbers by their size
with the negative zero before the positive one, and in every kind the sentinel behind all others.
The order of floating numbers goes through their magnitudes, which grow with the values, so that no
value is ever computed for it.

`Word.OrderLaws` collects what sorting, ranking, equality and hashing rely on.
-/

namespace Columnar

namespace Precision

variable {p : Precision} {m n : Nat}

theorem units_lt_units_iff : p.units m < p.units n ↔ m < n := by
  constructor
  · intro smaller
    have lower : m ≤ n := le_of_units_le (Nat.le_of_lt smaller)
    grind
  · intro smaller
    exact Nat.lt_of_lt_of_le (units_lt_units_succ p m) (units_le_units smaller)

@[simp] theorem units_zero : p.units 0 = 0 := units_of_lt (Nat.two_pow_pos _)

end Precision

namespace Binary

variable {p : Precision} {x y : Binary p}

/-- The number that a floating word stands for, the infinities at both ends. NaNs are left out. -/
def value (x : Binary p) : WithBot (WithTop ℚ) :=
  if x.isInfinite then (if x.isNegative then ⊥ else ⊤)
  else ((x.scaled / 2 ^ p.unitExp : ℚ) : WithTop ℚ)

def zero (negative : Bool) : Binary p := ofParts negative 0

theorem eq_zero_iff {negative : Bool} :
    x = zero negative ↔ x.isNegative = negative ∧ x.magnitude = 0 := by
  have small : 0 < p.signWeight := Nat.two_pow_pos _
  constructor
  · rintro rfl
    exact ⟨isNegative_ofParts small, magnitude_ofParts small⟩
  · rintro ⟨rfl, zero⟩
    rw [Binary.zero, ← zero, ofParts_magnitude]

theorem magnitude_le_infinity (number : x.isNaN = false) : x.magnitude ≤ p.infinity :=
  Nat.le_of_not_lt (of_decide_eq_false number)

/-- Ranks grow with the values, except that they tell the zeros apart. -/
theorem rank_lt_rank_iff :
    x.rank < y.rank ↔ x.scaled < y.scaled ∨ x = zero true ∧ y = zero false := by
  have order := Precision.units_lt_units_iff (p := p) (m := x.magnitude) (n := y.magnitude)
  have back := Precision.units_lt_units_iff (p := p) (m := y.magnitude) (n := x.magnitude)
  have first := Precision.units_lt_units_iff (p := p) (m := 0) (n := x.magnitude)
  have second := Precision.units_lt_units_iff (p := p) (m := 0) (n := y.magnitude)
  rw [Precision.units_zero] at first second
  rw [eq_zero_iff, eq_zero_iff, rank, rank, scaled, scaled]
  cases x.isNegative <;> cases y.isNegative <;> simp <;> omega

/-- An infinity has more units than any finite number, so that units order it rightly. -/
theorem units_infinite_or_finite (number : x.isNaN = false) :
    (x.isInfinite = true ∧ p.units x.magnitude = p.units p.infinity) ∨
      (x.isInfinite = false ∧ p.units x.magnitude < p.units p.infinity) := by
  rw [Precision.units_lt_units_iff]
  have bound := magnitude_le_infinity number
  cases infinite : x.isInfinite with
  | true => exact .inl ⟨rfl, congrArg p.units (eq_of_beq infinite)⟩
  | false =>
    have apart : x.magnitude ≠ p.infinity := ne_of_beq_false infinite
    exact .inr ⟨rfl, by omega⟩

theorem value_lt_value_iff (hx : x.isNaN = false) (hy : y.isNaN = false) :
    x.value < y.value ↔ x.scaled < y.scaled := by
  have unit : (0 : ℚ) < 2 ^ p.unitExp := pow_pos (by norm_num) _
  have last : 0 < p.units p.infinity := by
    rw [← Precision.units_zero (p := p), Precision.units_lt_units_iff]
    cases p <;> decide
  have below (q : ℚ) : ((q : WithTop ℚ) : WithBot (WithTop ℚ)) < ⊤ :=
    WithBot.coe_lt_coe.mpr (WithTop.coe_lt_top q)
  unfold value
  obtain ⟨ix, ux⟩ | ⟨fx, ux⟩ := units_infinite_or_finite hx <;>
    obtain ⟨iy, uy⟩ | ⟨fy, uy⟩ := units_infinite_or_finite hy
  · rw [ix, iy, scaled, scaled]
    cases x.isNegative <;> cases y.isNegative <;> simp <;> omega
  · rw [ix, fy, scaled, scaled]
    cases x.isNegative <;> cases y.isNegative <;> simp <;> omega
  · rw [fx, iy, scaled, scaled]
    cases x.isNegative <;> cases y.isNegative <;> simp [below] <;> omega
  · rw [fx, fy]
    simp only [Bool.false_eq_true, if_false]
    rw [WithBot.coe_lt_coe, WithTop.coe_lt_coe, div_lt_div_iff_of_pos_right unit, Int.cast_lt]

end Binary

namespace Word

variable {k : Kind}

/-! ## Packing -/

theorem pack_unpack (w : Word k) : pack w.unpack = w := by
  cases k with
  | signed b => exact Option.some.inj ((if_pos (unpack w).property).symm.trans (ofInt_toInt rfl w))
  | unsigned b =>
    exact Option.some.inj ((if_pos (unpack w).property).symm.trans (ofInt_toInt rfl w))
  | floating | char | string => rfl

theorem unpack_pack (v : Value k) : (pack v).unpack = v := by
  cases k with
  | signed b =>
    obtain ⟨w, word, value⟩ := exists_ofInt (k := .signed b) rfl v.property
    have packed : ofInt (.signed b) v.val = some (pack v) := if_pos v.property
    cases packed.symm.trans word
    exact Subtype.ext (Option.some.inj value)
  | unsigned b =>
    obtain ⟨w, word, value⟩ := exists_ofInt (k := .unsigned b) rfl v.property
    have packed : ofInt (.unsigned b) v.val = some (pack v) := if_pos v.property
    cases packed.symm.trans word
    exact Subtype.ext (Option.some.inj value)
  | floating | char | string => rfl

/-! ## The order of values -/

/-- Floating words that are no NaNs are ordered by their values, the negative zero before the
positive one. -/
theorem compare_eq_lt_iff_value {p : Precision} {a b : Word (.floating p)}
    (ha : Binary.isNaN a = false) (hb : Binary.isNaN b = false) :
    a.compare b = .lt ↔
      Binary.value a < Binary.value b ∨ a = Binary.zero true ∧ b = Binary.zero false := by
  have ranks : a.compare b = Ord.compare (Binary.rank a) (Binary.rank b) := by
    change lastly Binary.isNaN (compareOn Binary.rank) a b = _
    simp only [lastly, ha, hb, compareOn]
  rw [ranks, Int.compare_eq_lt, Binary.rank_lt_rank_iff, Binary.value_lt_value_iff ha hb]

/-- What sorting, ranking, equality and hashing rely on. -/
structure OrderLaws (k : Kind) : Prop where
  refl (a : Word k) : a.compare a = .eq
  swap (a b : Word k) : b.compare a = (a.compare b).swap
  trans (a b c : Word k) : (a.compare b).isLE = true → (b.compare c).isLE = true →
    (a.compare c).isLE = true
  total (a b : Word k) : (a.compare b).isLE = true ∨ (b.compare a).isLE = true
  eq_iff_key (a b : Word k) : a.compare b = .eq ↔ a.key = b.key
  hashTerm_eq (a b : Word k) : a.compare b = .eq → a.hashTerm = b.hashTerm
  isSentinel_eq (a b : Word k) : a.compare b = .eq → a.isSentinel = b.isSentinel
  sentinel_gt (a b : Word k) : a.isSentinel = true → b.isSentinel = false → a.compare b = .gt
  sentinel_eq (a b : Word k) : a.isSentinel = true → b.isSentinel = true → a.compare b = .eq
  pack_unpack (a : Word k) : pack a.unpack = a
  unpack_pack (v : Value k) : (pack v).unpack = v
  integers (a b : Word k) : k.isInteger = true →
    ∃ u v, a.toInt = some u ∧ b.toInt = some v ∧ a.compare b = Ord.compare u v

/-- The laws hold of every kind, and floating words that are no NaNs are ordered by their values
with the negative zero before the positive one. -/
theorem order_laws :
    (∀ k, OrderLaws k) ∧
      ∀ (p : Precision) (a b : Word (.floating p)), a.isSentinel = false → b.isSentinel = false →
        (a.compare b = .lt ↔
          Binary.value a < Binary.value b ∨ a = Binary.zero true ∧ b = Binary.zero false) := by
  refine ⟨fun k => ?_, fun p a b ha hb => compare_eq_lt_iff_value ha hb⟩
  constructor
  case refl => exact fun a => Std.ReflCmp.compare_self
  case swap => exact fun a b => Std.OrientedCmp.eq_swap
  case trans => exact fun a b c => Std.TransCmp.isLE_trans
  case total =>
    intro a b
    have swap : b.compare a = (a.compare b).swap := Std.OrientedCmp.eq_swap
    rw [swap]
    cases a.compare b <;> simp
  case eq_iff_key => exact fun a b => compare_eq_iff
  case hashTerm_eq => exact fun a b => hashTerm_eq_of_compare
  case isSentinel_eq => exact fun a b => isSentinel_eq_of_compare
  case sentinel_gt => exact fun a b => compare_eq_gt_of_isSentinel
  case sentinel_eq => exact fun a b => compare_eq_of_isSentinel
  case pack_unpack => exact pack_unpack
  case unpack_pack => exact unpack_pack
  case integers =>
    intro a b integer
    obtain ⟨u, left, -⟩ := a.exists_toInt integer
    obtain ⟨v, right, -⟩ := b.exists_toInt integer
    exact ⟨u, v, left, right, compare_eq_compare integer left right⟩

example : compare (k := .float) 0x80000000#32 0x00000000#32 = .lt := by decide

end Word

end Columnar

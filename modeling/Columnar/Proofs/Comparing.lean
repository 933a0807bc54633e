import Columnar.Word.Order

/-!
# The order of words

`Word.compare` is a total preorder on the words of every kind: floating words and texts are ordered
among themselves with the sentinels put behind all others, and the remaining kinds by a number.
Words compare equal exactly when they have the same key, which for all but NaNs means that they are
the same word.
-/

namespace Columnar

variable {α : Type}

/-- The order of two values of which some come last and are then all equal. -/
def lastly (last : α → Bool) (cmp : α → α → Ordering) (x y : α) : Ordering :=
  match last x, last y with
  | true, true => .eq
  | true, false => .gt
  | false, true => .lt
  | false, false => cmp x y

instance (last : α → Bool) (cmp : α → α → Ordering) [Std.TransCmp cmp] :
    Std.TransCmp (lastly last cmp) where
  eq_swap {x y} := by
    cases hx : last x <;> cases hy : last y <;> simp only [lastly, hx, hy]
    case false.false => exact Std.OrientedCmp.eq_swap
    all_goals rfl
  isLE_trans {x y z} hxy hyz := by
    cases hx : last x <;> cases hy : last y <;> cases hz : last z <;>
      simp only [lastly, hx, hy, hz] at hxy hyz ⊢
    case false.false.false => exact Std.TransCmp.isLE_trans hxy hyz
    all_goals simp_all

namespace Binary

variable {p : Precision}

/-- A pattern is determined by its sign and its magnitude, which its rank holds. -/
theorem rank_injective {x y : Binary p} (h : x.rank = y.rank) : x = y := by
  have weight : 2 * p.signWeight = 2 ^ p.bits := by cases p <;> rfl
  have sign (z : Binary p) : z.isNegative = decide (p.signWeight ≤ z.toNat) := by
    rw [isNegative, BitVec.msb_eq_decide]
    rfl
  have hx := x.isLt
  have hy := y.isLt
  apply BitVec.eq_of_toNat_eq
  simp only [rank, sign, magnitude] at h
  rw [← weight] at hx hy
  have split (n : Nat) (small : n < 2 * p.signWeight) :
      n % p.signWeight = if p.signWeight ≤ n then n - p.signWeight else n := by
    split
    · rw [Nat.mod_eq_sub_mod (by assumption), Nat.mod_eq_of_lt (by omega)]
    · exact Nat.mod_eq_of_lt (by omega)
  rw [split _ hx, split _ hy] at h
  by_cases nx : p.signWeight ≤ x.toNat <;> by_cases ny : p.signWeight ≤ y.toNat <;>
    simp only [nx, ny, decide_true, decide_false, if_true, if_false, Bool.false_eq_true] at h <;>
    omega

@[simp] theorem isNaN_nan : (nan : Binary p).isNaN = true := by cases p <;> decide

end Binary

namespace Word

variable {k : Kind}

theorem compareBinary_eq (p : Precision) :
    compareBinary (p := p) = lastly Binary.isNaN (compareOn Binary.rank) := rfl

theorem compareText_eq : compareText = lastly String.isEmpty Ord.compare := rfl

instance (p : Precision) : Std.TransCmp (compareBinary (p := p)) := by
  rw [compareBinary_eq]
  infer_instance

instance : Std.TransCmp compareText := by
  rw [compareText_eq]
  infer_instance

/-- The order of words is total and transitive. -/
instance : Std.TransCmp (compare (k := k)) := by
  cases k with
  | signed w => exact inferInstanceAs (Std.TransCmp (compareOn (BitVec.toInt (n := w.bits))))
  | unsigned w => exact inferInstanceAs (Std.TransCmp (compareOn (BitVec.toNat (w := w.bits))))
  | floating p => exact inferInstanceAs (Std.TransCmp (compareBinary (p := p)))
  | char => exact inferInstanceAs (Std.TransCmp (compareOn (BitVec.toNat (w := 16))))
  | string => exact inferInstanceAs (Std.TransCmp compareText)

/-- Words compare equal when they have the same key. -/
theorem compare_eq_iff {x y : Word k} : x.compare y = .eq ↔ x.key = y.key := by
  cases k with
  | signed w => exact Int.compare_eq_eq.trans BitVec.toInt_inj
  | unsigned w => exact Nat.compare_eq_eq.trans BitVec.toNat_inj
  | char => exact Nat.compare_eq_eq.trans BitVec.toNat_inj
  | floating p =>
    change compareBinary x y = .eq ↔ _
    simp only [compareBinary_eq, lastly, key]
    cases hx : Binary.isNaN x <;> cases hy : Binary.isNaN y
    case false.false => exact Int.compare_eq_eq.trans ⟨Binary.rank_injective, congrArg _⟩
    case false.true =>
      have apart : x ≠ Binary.nan := fun h => by simp [h] at hx
      simp [apart]
    case true.false =>
      have apart : Binary.nan ≠ y := fun h => by simp [← h] at hy
      simp [apart]
    case true.true => simp
  | string =>
    change compareText x y = .eq ↔ x = y
    simp only [compareText_eq, lastly]
    cases hx : String.isEmpty x <;> cases hy : String.isEmpty y
    case false.false => exact Std.LawfulEqOrd.compare_eq_iff_eq
    all_goals
      simp only [String.isEmpty_iff, String.isEmpty_eq_false_iff] at hx hy
      grind

theorem toNat_lt_allOnes {n : Nat} {x : BitVec n} (h : x ≠ BitVec.allOnes n) :
    x.toNat < (BitVec.allOnes n).toNat := by
  have apart : x.toNat ≠ (BitVec.allOnes n).toNat := fun same => h (BitVec.toNat_inj.mp same)
  have bound := x.isLt
  rw [BitVec.toNat_allOnes] at apart ⊢
  omega

/-- A sentinel follows every word that is none. -/
theorem compare_eq_gt_of_isSentinel {x y : Word k} (hx : x.isSentinel = true)
    (hy : y.isSentinel = false) : x.compare y = .gt := by
  cases k with
  | signed w =>
    obtain rfl := beq_iff_eq.mp hx
    have largest : (BitVec.intMax w.bits).toInt = w.maxSigned := by cases w <;> decide
    have other : BitVec.toInt y ≠ w.maxSigned := fun h =>
      beq_eq_false_iff_ne.mp hy (BitVec.toInt_inj.mp (h.trans largest.symm))
    have bound := (w.toInt_bounds y).2
    exact Int.compare_eq_gt.mpr (by omega)
  | unsigned w =>
    obtain rfl := beq_iff_eq.mp hx
    exact Nat.compare_eq_gt.mpr (toNat_lt_allOnes (beq_eq_false_iff_ne.mp hy))
  | char =>
    obtain rfl := beq_iff_eq.mp hx
    exact Nat.compare_eq_gt.mpr (toNat_lt_allOnes (beq_eq_false_iff_ne.mp hy))
  | floating p =>
    change lastly Binary.isNaN (compareOn Binary.rank) x y = .gt
    have first : Binary.isNaN x = true := hx
    have second : Binary.isNaN y = false := hy
    simp only [lastly, first, second]
  | string =>
    change lastly String.isEmpty Ord.compare x y = .gt
    have first : String.isEmpty x = true := String.isEmpty_iff.mpr (beq_iff_eq.mp hx)
    have second : String.isEmpty y = false :=
      String.isEmpty_eq_false_iff.mpr (beq_eq_false_iff_ne.mp hy)
    simp only [lastly, first, second]

theorem compare_eq_of_isSentinel {x y : Word k} (hx : x.isSentinel = true)
    (hy : y.isSentinel = true) : x.compare y = .eq := by
  rw [compare_eq_iff]
  cases k with
  | floating p => simp_all [isSentinel, key]
  | _ => simp_all [isSentinel, key]

/-- What follows a sentinel in order is a sentinel. -/
theorem isSentinel_of_isLE {x y : Word k} (h : (x.compare y).isLE = true)
    (hx : x.isSentinel = true) : y.isSentinel = true := by
  cases hy : y.isSentinel with
  | true => rfl
  | false =>
    rw [compare_eq_gt_of_isSentinel hx hy] at h
    cases h

end Word

end Columnar

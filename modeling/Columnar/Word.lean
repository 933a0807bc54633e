import Columnar.Binary.Format
import Columnar.Text.Utf16

/-!
# Words and values

A column stores words: bit patterns, or text. Integers of either signedness are kept as patterns of
their width, floating numbers as their IEEE patterns, and code units as they are. `Word.pack` and
`Word.unpack` pass between words and the values that they stand for.

Each kind sets one value aside as its sentinel: the largest integer, NaN, the unit U+FFFF, or the
empty text.
-/

namespace Columnar

/-- What a slot of a column holds. -/
@[reducible] def Word : Kind → Type
  | .signed w => BitVec w.bits
  | .unsigned w => BitVec w.bits
  | .floating p => Binary p
  | .char => CodeUnit
  | .string => String

/-- What a caller hands in or gets back. -/
@[reducible] def Value : Kind → Type
  | .signed w => { v : Int // w.minSigned ≤ v ∧ v ≤ w.maxSigned }
  | .unsigned w => { v : Int // 0 ≤ v ∧ v ≤ w.maxUnsigned }
  | .floating p => Binary p
  | .char => CodeUnit
  | .string => String

instance {k : Kind} : DecidableEq (Word k) :=
  match k with
  | .signed w => inferInstanceAs (DecidableEq (BitVec w.bits))
  | .unsigned w => inferInstanceAs (DecidableEq (BitVec w.bits))
  | .floating p => inferInstanceAs (DecidableEq (Binary p))
  | .char => inferInstanceAs (DecidableEq CodeUnit)
  | .string => inferInstanceAs (DecidableEq String)

namespace Word

/-- The word of a slot that holds no element. -/
def zero : (k : Kind) → Word k
  | .signed w => 0#w.bits
  | .unsigned w => 0#w.bits
  | .floating p => 0#p.bits
  | .char => 0#16
  | .string => ""

instance {k : Kind} : Inhabited (Word k) := ⟨zero k⟩

/-- The word that reads as missing while the flag of its column is up. -/
def sentinel : (k : Kind) → Word k
  | .signed w => BitVec.intMax w.bits
  | .unsigned w => BitVec.allOnes w.bits
  | .floating _ => Binary.nan
  | .char => BitVec.allOnes 16
  | .string => ""

/-- Every NaN is a sentinel; the other kinds have one sentinel word. -/
def isSentinel : {k : Kind} → Word k → Bool
  | .signed w, x => x == BitVec.intMax w.bits
  | .unsigned w, x => x == BitVec.allOnes w.bits
  | .floating _, x => Binary.isNaN x
  | .char, x => x == BitVec.allOnes 16
  | .string, x => x == ""

/-- Smallest value of the kind. -/
def lowest : (k : Kind) → Word k
  | .signed w => BitVec.intMin w.bits
  | .unsigned w => 0#w.bits
  | .floating _ => Binary.minFinite
  | .char => 0#16
  | .string => "\x00"

/-- Largest value of the kind other than the sentinel. -/
def highest : (k : Kind) → Word k
  | .signed w => BitVec.intMax w.bits - 1
  | .unsigned w => BitVec.allOnes w.bits - 1
  | .floating _ => Binary.maxFinite
  | .char => BitVec.allOnes 16 - 1
  | .string => "\uffff"

/-- The word of a value. -/
def pack : {k : Kind} → Value k → Word k
  | .signed w, v => BitVec.ofInt w.bits v.val
  | .unsigned w, v => BitVec.ofInt w.bits v.val
  | .floating _, v => v
  | .char, v => v
  | .string, v => v

end Word

theorem IntWidth.two_pow_pred_mul_two (w : IntWidth) :
    (2 : Int) ^ (w.bits - 1) * 2 = 2 ^ w.bits := by
  cases w <;> decide

/-- Two's complement of a width covers the signed range of that width. -/
theorem IntWidth.toInt_bounds (w : IntWidth) (x : BitVec w.bits) :
    w.minSigned ≤ x.toInt ∧ x.toInt ≤ w.maxSigned := by
  have lower := BitVec.le_two_mul_toInt (x := x)
  have upper := BitVec.two_mul_toInt_lt (x := x)
  have double := w.two_pow_pred_mul_two
  unfold IntWidth.minSigned IntWidth.maxSigned
  omega

theorem IntWidth.toNat_bounds (w : IntWidth) (x : BitVec w.bits) :
    (0 : Int) ≤ x.toNat ∧ (x.toNat : Int) ≤ w.maxUnsigned := by
  have upper : (x.toNat : Int) < 2 ^ w.bits := by exact_mod_cast x.isLt
  unfold IntWidth.maxUnsigned
  omega

/-- The value of a word. -/
def Word.unpack : {k : Kind} → Word k → Value k
  | .signed w, x => ⟨BitVec.toInt x, w.toInt_bounds x⟩
  | .unsigned w, x => ⟨(BitVec.toNat x : Int), w.toNat_bounds x⟩
  | .floating _, x => x
  | .char, x => x
  | .string, x => x

end Columnar

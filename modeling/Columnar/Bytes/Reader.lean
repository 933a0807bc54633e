import Columnar.Bytes.BigEndian
import Columnar.Error

/-!
# Reading bytes

A reader takes bytes from the front of its input. When it fails, the input keeps only what had not
been taken by then, so that a caller sees how far the reading got.
-/

namespace Columnar

abbrev Reader := EStateM ColumnError (List UInt8)

namespace Reader

/-- True of the lists of at least `n` elements. It looks at no more than those, so a caller may ask
it of a long input again and again. -/
def hasAtLeast {α : Type} (n : Nat) (l : List α) : Bool :=
  match n with
  | 0 => true
  | n + 1 => !(l.drop n).isEmpty

theorem hasAtLeast_eq_decide {α : Type} (n : Nat) (l : List α) :
    hasAtLeast n l = decide (n ≤ l.length) := by
  cases n with
  | zero => simp [hasAtLeast]
  | succ n =>
    rw [hasAtLeast, Bool.eq_iff_iff]
    simp only [Bool.not_eq_true', List.isEmpty_eq_false_iff, ne_eq, List.drop_eq_nil_iff,
      Nat.not_le, decide_eq_true_eq]
    exact Nat.lt_iff_add_one_le

/-- Fails unless `count` bytes are left; takes none. -/
def require (what : String) (count : Nat) : Reader Unit := do
  let input ← get
  if !hasAtLeast count input then
    throw (.invalidData (.truncated what count input.length))

/-- Takes the next `count` bytes, which the caller has required. -/
def take (count : Nat) : Reader (List UInt8) :=
  modifyGet fun input => (input.take count, input.drop count)

/-- Takes a big-endian number of `bits` bits, a multiple of eight. -/
def word (bits : Nat) : Reader (BitVec bits) :=
  return BitVec.ofNat bits (Bytes.ofBigEndian (← take (bits / 8)))

end Reader

end Columnar

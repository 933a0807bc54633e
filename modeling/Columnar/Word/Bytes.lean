import Columnar.Bytes.BigEndian
import Columnar.Word

/-!
# Byte order and sign of words

Reversal of the bytes of a word, for data that was written in the other byte order, and the flip
of the top bit of an integer, for data that was read with the wrong signedness.
-/

namespace Columnar.Word

/-- The pattern of `count` bytes with its bytes in reverse order. -/
def reverseBytes {n : Nat} (count : Nat) (x : BitVec n) : BitVec n :=
  BitVec.ofNat n (Bytes.ofLittleEndian (Bytes.bigEndian count x.toNat))

/-- Reverses the bytes of a fixed-width word. -/
def swapBytes : {k : Kind} → Word k → Word k
  | .signed w, x => reverseBytes (n := w.bits) w.bytes x
  | .unsigned w, x => reverseBytes (n := w.bits) w.bytes x
  | .floating p, x => reverseBytes (n := p.bits) p.bytes x
  | .char, x => reverseBytes (n := 16) 2 x
  | .string, x => x

/-- Flips the top bit of an integer word. -/
def flipSign : {k : Kind} → Word k → Word k
  | .signed w, x => x ^^^ BitVec.intMin w.bits
  | .unsigned w, x => x ^^^ BitVec.intMin w.bits
  | _, x => x

end Columnar.Word

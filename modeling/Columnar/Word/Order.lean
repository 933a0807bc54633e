import Columnar.Word

/-!
# Order, keys and hash terms of words

`Word.compare` is a total order on the values of a kind in which the sentinel comes last. Words
that compare equal have the same key, and words with the same key contribute the same term to a
hash code. Only floating words need a key of their own, because their NaNs compare equal.
-/

namespace Columnar.Word

/-- Order of floating numbers: every NaN after all others, and otherwise by value with -0.0 below
0.0. -/
def compareBinary {p : Precision} (x y : Binary p) : Ordering :=
  match x.isNaN, y.isNaN with
  | true, true => .eq
  | true, false => .gt
  | false, true => .lt
  | false, false => Ord.compare x.rank y.rank

/-- Code point order of texts, the empty one last. -/
def compareText (x y : String) : Ordering :=
  match x.isEmpty, y.isEmpty with
  | true, true => .eq
  | true, false => .gt
  | false, true => .lt
  | false, false => Ord.compare x y

/-- Order of the values; a sentinel follows every other value. -/
def compare : {k : Kind} → Word k → Word k → Ordering
  | .signed _, x, y => Ord.compare (BitVec.toInt x) (BitVec.toInt y)
  | .unsigned _, x, y => Ord.compare (BitVec.toNat x) (BitVec.toNat y)
  | .floating _, x, y => compareBinary x y
  | .char, x, y => Ord.compare (BitVec.toNat x) (BitVec.toNat y)
  | .string, x, y => compareText x y

/-- A representative of the words that compare equal. -/
def key : {k : Kind} → Word k → Word k
  | .signed _, x => x
  | .unsigned _, x => x
  | .floating _, x => if Binary.isNaN x then Binary.nan else x
  | .char, x => x
  | .string, x => x

/-- A wrapping 32-bit hash value. -/
abbrev HashCode := BitVec 32

/-- Exclusive or of the halves of a 64-bit pattern. -/
def foldHalves (x : BitVec 64) : HashCode := (x ^^^ (x >>> 32)).setWidth 32

/-- One step of a polynomial hash. -/
def hashStep (acc term : HashCode) : HashCode := 31 * acc + term

/-- Polynomial hash of the units of a text. -/
def textTerm (s : String) : HashCode :=
  (Utf16.encode s.toList).foldl (fun acc u => hashStep acc (u.setWidth 32)) 0

def signedTerm : (w : IntWidth) → BitVec w.bits → HashCode
  | .w64, x => foldHalves x
  | _, x => x.signExtend 32

def unsignedTerm : (w : IntWidth) → BitVec w.bits → HashCode
  | .w64, x => foldHalves x
  | _, x => x.setWidth 32

def binaryTerm : (p : Precision) → Binary p → HashCode
  | .single, x => x
  | .double, x => foldHalves x

/-- What a word contributes to the hash code of its column: its value where that fits 32 bits, the
folded halves of a wider one, and the polynomial hash of a text. -/
def hashTerm : {k : Kind} → Word k → HashCode
  | .signed w, x => signedTerm w x
  | .unsigned w, x => unsignedTerm w x
  | .floating p, x => binaryTerm p (key (k := .floating p) x)
  | .char, x => BitVec.setWidth 32 x
  | .string, x => textTerm x

end Columnar.Word

import Columnar.Numeral.Integer
import Columnar.Binary.Text
import Columnar.Word

/-!
# Words from and to other currencies

Values cross kinds as integers, as doubles or as text. `Word.ofInt`, `Word.ofDouble` and
`Word.ofText` give the word of a kind for such a value, or `none` when the kind cannot hold it;
`Word.toInt`, `Word.toDouble` and `Word.text` go the other way and take no notice of the sentinel.
-/

namespace Columnar.Word

/-- The word of an integer: the exact one for integer kinds and code units, the nearest one for
floating kinds, and the decimal text. -/
def ofInt : (k : Kind) → Int → Option (Word k)
  | .signed w, v => if w.minSigned ≤ v ∧ v ≤ w.maxSigned then some (BitVec.ofInt w.bits v) else none
  | .unsigned w, v => if 0 ≤ v ∧ v ≤ w.maxUnsigned then some (BitVec.ofInt w.bits v) else none
  | .floating _, v => some (Binary.ofInt v)
  | .char, v => if 0 ≤ v ∧ v ≤ 0xFFFF then some (BitVec.ofInt 16 v) else none
  | .string, v => some (toString v)

/-- The word of a double; a NaN has none. -/
def ofDouble : (k : Kind) → Binary .double → Option (Word k)
  | .signed w, x => (Binary.roundHalfUp x).bind (ofInt (.signed w))
  | .unsigned w, x => (Binary.roundHalfUp x).bind (ofInt (.unsigned w))
  | .floating p, x => Binary.ofDouble p x
  | .char, x => (Binary.roundHalfUp x).bind (ofInt .char)
  | .string, x => if x.isNaN then none else some x.text

/-- The word of a text: a number for numeric kinds, the first UTF-16 unit for code units. -/
def ofText : (k : Kind) → String → Option (Word k)
  | .signed w, s => (Numeral.integerOfText s.toList).bind (ofInt (.signed w))
  | .unsigned w, s => (Numeral.integerOfText s.toList).bind (ofInt (.unsigned w))
  | .floating p, s => Binary.ofDouble p (Numeral.doubleOfText s.toList)
  | .char, s => (Utf16.encode s.toList).head?
  | .string, s => some s

/-- The text of one code unit; a surrogate shows as U+FFFD. -/
def unitText (u : CodeUnit) : String := String.ofList (Utf16.decodeLossy [u])

/-- The word of a code unit. -/
def ofUnit (k : Kind) (u : CodeUnit) : Option (Word k) :=
  match k with
  | .char => some u
  | .string => some (unitText u)
  | k => ofInt k u.toNat

/-- The word as an integer; floating words are rounded half up and text is read. -/
def toInt : {k : Kind} → Word k → Option Int
  | .signed _, x => some (BitVec.toInt x)
  | .unsigned _, x => some (BitVec.toNat x)
  | .floating _, x => Binary.roundHalfUp (Binary.toDouble x)
  | .char, x => some (BitVec.toNat x)
  | .string, x => Numeral.integerOfText (String.toList x)

/-- The word as a double, NaN for text that is no number. -/
def toDouble : {k : Kind} → Word k → Binary .double
  | .signed _, x => Binary.ofInt (BitVec.toInt x)
  | .unsigned _, x => Binary.ofInt (BitVec.toNat x)
  | .floating _, x => Binary.toDouble x
  | .char, x => Binary.ofInt (BitVec.toNat x)
  | .string, x => Numeral.doubleOfText (String.toList x)

/-- The word as text, the sentinel included. -/
def text : {k : Kind} → Word k → String
  | .signed _, x => toString (BitVec.toInt x)
  | .unsigned _, x => toString (BitVec.toNat x)
  | .floating _, x => Binary.text x
  | .char, x => unitText x
  | .string, x => x

end Columnar.Word

import Columnar.Binary.Format

/-!
# Correct rounding

Every conversion into a binary format rounds an exact quotient of integers to the nearest pattern,
a tie going to the even significand. Integers, other formats and decimal numbers all come in this
way, so one rule serves them all.

Conversion to an integer adds one half in the double format and takes the floor: the sum is
rounded before the floor is taken.
-/

namespace Columnar

/-- The integer nearest to `num / den`, the even one on a tie. -/
def roundHalfEven (num den : Nat) : Nat :=
  let q := num / den
  let r := num % den
  if 2 * r < den then q
  else if den < 2 * r then q + 1
  else q + q % 2

namespace Precision

/-- Magnitude of the pattern nearest to `num / den` times the least positive value. -/
def roundUnits (p : Precision) (num den : Nat) : Nat :=
  let shift := Nat.log2 (num / den) - p.fracBits
  min p.infinity (shift * 2 ^ p.fracBits + roundHalfEven num (den * 2 ^ shift))

end Precision

namespace Binary

variable {p : Precision}

/-- The pattern nearest to the rational number `num / den`. -/
def ofQuotient (negative : Bool) (num den : Nat) : Binary p :=
  ofParts negative (p.roundUnits (num * 2 ^ p.unitExp) den)

/-- The pattern nearest to an integer. -/
def ofInt (v : Int) : Binary p := ofQuotient (v < 0) v.natAbs 1

/-- The pattern nearest to `v` times the least positive value of the format. -/
def ofScaled (v : Int) : Binary p := ofParts (v < 0) (p.roundUnits v.natAbs 1)

/-- The same value in another format, or the nearest one there. -/
def convert {q : Precision} (x : Binary p) : Binary q :=
  if x.isNaN then nan
  else if x.isInfinite then ofParts x.isNegative q.infinity
  else ofQuotient x.isNegative (p.units x.magnitude) (2 ^ p.unitExp)

/-- The double of the same value; a single is widened without loss. -/
def toDouble (x : Binary p) : Binary .double :=
  match p, x with
  | .single, x => x.convert
  | .double, x => x

/-- A double in the given format, or `none` when it is a NaN or lies beyond the largest finite
value. The infinities keep their place. -/
def ofDouble (p : Precision) (x : Binary .double) : Option (Binary p) :=
  if x.isNaN then none else
  match p with
  | .single =>
    if x.isFinite && (convert (maxFinite (p := .single)) : Binary .double).magnitude < x.magnitude
    then none
    else some x.convert
  | .double => some x

/-- True of the integers that 128-bit two's complement can hold. -/
def fitsWide (v : Int) : Bool := -(2 ^ 127) ≤ v && v < 2 ^ 127

/-- Rounds a double to an integer: the floor of its sum with one half, as far as that fits 128
bits. -/
def roundHalfUp (x : Binary .double) : Option Int :=
  if x.isFinite then
    let sum : Binary .double := ofScaled (x.scaled + 2 ^ (Precision.double.unitExp - 1))
    let v := sum.scaled / 2 ^ Precision.double.unitExp
    if fitsWide v then some v else none
  else none

end Binary

end Columnar

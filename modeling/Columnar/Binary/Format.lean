import Columnar.Kind

/-!
# Binary floating patterns

A floating word is kept as its IEEE 754 bit pattern: a sign bit above a magnitude. All arithmetic
on it is exact integer arithmetic, because every finite value is a whole multiple of
`2 ^ (-unitExp)`, the least positive value of its format; `Binary.scaled` is that multiple.

Magnitudes are ordered like the values they stand for, the infinity above every finite one and the
NaNs above the infinity.
-/

namespace Columnar

/-- A bit pattern of the format. -/
abbrev Binary (p : Precision) := BitVec p.bits

namespace Precision

/-- Magnitude of the infinities: exponent all ones, fraction zero. -/
def infinity (p : Precision) : Nat := (2 ^ p.expBits - 1) * 2 ^ p.fracBits

/-- Weight of the sign bit. -/
def signWeight (p : Precision) : Nat := 2 ^ (p.bits - 1)

/-- Significand of a finite magnitude: the fraction, with the hidden bit where there is one. -/
def significand (p : Precision) (magnitude : Nat) : Nat :=
  if magnitude < 2 ^ p.fracBits then magnitude
  else 2 ^ p.fracBits + magnitude % 2 ^ p.fracBits

/-- Binary exponent of a finite magnitude, counted from the least positive value. -/
def shift (p : Precision) (magnitude : Nat) : Nat := magnitude / 2 ^ p.fracBits - 1

/-- A finite magnitude as a multiple of the least positive value. -/
def units (p : Precision) (magnitude : Nat) : Nat :=
  p.significand magnitude * 2 ^ p.shift magnitude

end Precision

namespace Binary

variable {p : Precision}

def magnitude (x : Binary p) : Nat := x.toNat % p.signWeight

def isNegative (x : Binary p) : Bool := x.msb

def isNaN (x : Binary p) : Bool := p.infinity < x.magnitude

def isInfinite (x : Binary p) : Bool := x.magnitude == p.infinity

def isFinite (x : Binary p) : Bool := x.magnitude < p.infinity

/-- The pattern with the given sign and magnitude. -/
def ofParts (negative : Bool) (magnitude : Nat) : Binary p :=
  BitVec.ofNat p.bits (if negative then p.signWeight + magnitude else magnitude)

/-- The canonical NaN: quiet, positive, without payload. -/
def nan : Binary p := ofParts false (p.infinity + 2 ^ (p.fracBits - 1))

/-- The largest finite value. -/
def maxFinite : Binary p := ofParts false (p.infinity - 1)

def minFinite : Binary p := ofParts true (p.infinity - 1)

/-- A finite value as a multiple of the least positive value. -/
def scaled (x : Binary p) : Int :=
  if x.isNegative then -(p.units x.magnitude : Int) else p.units x.magnitude

/-- Position of a pattern in the total order: by value, with -0.0 below 0.0, negative NaNs first
and positive NaNs last. -/
def rank (x : Binary p) : Int :=
  if x.isNegative then -(x.magnitude : Int) - 1 else x.magnitude

/-- Equality of values: the zeros are equal, and a NaN equals nothing. -/
def sameValue (x y : Binary p) : Bool :=
  !x.isNaN && !y.isNaN && (x == y || (x.magnitude == 0 && y.magnitude == 0))

end Binary

end Columnar

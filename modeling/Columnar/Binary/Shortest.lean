import Columnar.Binary.Format

/-!
# Shortest decimal digits

The decimal number with the fewest digits among those that round to a given finite magnitude, and
of those the nearest to it. The numbers that round to a magnitude form an interval whose ends are
halfway to its neighbours and belong to it when the significand is even. On the grid of each digit
count the two points next to the value are tried; the first grid with a hit wins, and a tie
between two hits goes up.
-/

namespace Columnar

/-- The number `digits * 10 ^ exponent`. -/
structure Decimal where
  digits : Nat
  exponent : Int
  deriving DecidableEq, Repr

namespace Decimal

/-- Drops trailing zeros; `fuel` bounds their number. -/
def stripZeros (fuel : Nat) (d : Decimal) : Decimal :=
  match fuel with
  | 0 => d
  | fuel + 1 =>
    if d.digits ≠ 0 ∧ d.digits % 10 = 0 then
      stripZeros fuel ⟨d.digits / 10, d.exponent + 1⟩
    else d

end Decimal

/-- Number of decimal digits, 0 for zero. -/
def digitCount (n : Nat) : Nat := if n = 0 then 0 else (Nat.toDigits 10 n).length

/-- Exponent of the leading decimal digit of `num / den`. -/
def leadingExponent (num den : Nat) : Int :=
  if den ≤ num then (digitCount (num / den) : Int) - 1
  else -(digitCount ((den + num - 1) / num - 1) : Int)

namespace Precision

/-- The numbers that round to a magnitude, in quarters of the least positive value. -/
structure Interval where
  low : Nat
  value : Nat
  high : Nat
  closed : Bool

/-- The gap below a power of two is half the gap above it, except at the bottom of the range. -/
def roundingInterval (p : Precision) (magnitude : Nat) : Interval :=
  let m := p.significand magnitude
  let scale := 2 ^ p.shift magnitude
  let below := if m = 2 ^ p.fracBits ∧ p.shift magnitude ≠ 0 then 1 else 2
  { low := (4 * m - below) * scale
    value := 4 * m * scale
    high := (4 * m + 2) * scale
    closed := m % 2 == 0 }

/-- Quarters of the least positive value in one. -/
def quarters (p : Precision) : Nat := 2 ^ (p.unitExp + 2)

/-- The point nearest to the value among those of the grid with `count` digits that round to the
magnitude. -/
def gridPoint? (p : Precision) (magnitude count : Nat) : Option Decimal :=
  let i := p.roundingInterval magnitude
  let exponent := leadingExponent i.value p.quarters - (count : Int) + 1
  -- one step of the grid is `step / unit` quarters
  let step := 10 ^ exponent.toNat * p.quarters
  let unit := 10 ^ (-exponent).toNat
  let inside (d : Nat) : Bool :=
    if i.closed then i.low * unit ≤ d * step && d * step ≤ i.high * unit
    else i.low * unit < d * step && d * step < i.high * unit
  let floor := i.value * unit / step
  let aboveIsNearer : Bool := step ≤ 2 * (i.value * unit - floor * step)
  match inside floor, inside (floor + 1) with
  | true, true => some ⟨if aboveIsNearer then floor + 1 else floor, exponent⟩
  | true, false => some ⟨floor, exponent⟩
  | false, true => some ⟨floor + 1, exponent⟩
  | false, false => none

/-- The digit counts up to 17, which tell all doubles apart. -/
def digitCounts : List Nat := (List.range 17).map (· + 1)

/-- The shortest decimal that rounds to a finite magnitude other than zero. -/
def shortest (p : Precision) (magnitude : Nat) : Decimal :=
  ((digitCounts.findSome? (p.gridPoint? magnitude)).getD ⟨0, 0⟩).stripZeros 17

end Precision

end Columnar

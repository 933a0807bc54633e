import Columnar.Binary.Shortest

/-!
# Text of floating numbers

A finite number is written with its shortest digits: positionally, with at least one digit after
the point, while the leading digit stands between the fourth place after the point and the
sixteenth before it, and with an exponent otherwise. Infinities and NaN are words.
-/

namespace Columnar

namespace Decimal

/-- Exponent of the leading digit. -/
def leading (d : Decimal) : Int := d.exponent + (Nat.toDigits 10 d.digits).length - 1

/-- Digits with a point, at least one on each side of it. -/
def positional (d : Decimal) : List Char :=
  let digits := Nat.toDigits 10 d.digits
  let point := d.leading + 1
  if point ≤ 0 then
    '0' :: '.' :: List.replicate (-point).toNat '0' ++ digits
  else if digits.length ≤ point.toNat then
    digits ++ List.replicate (point.toNat - digits.length) '0' ++ ['.', '0']
  else
    digits.take point.toNat ++ '.' :: digits.drop point.toNat

/-- Digits with the point after the first one, and an exponent. -/
def scientific (d : Decimal) : List Char :=
  let digits := Nat.toDigits 10 d.digits
  let fraction := digits.drop 1
  digits.take 1 ++ (if fraction.isEmpty then [] else '.' :: fraction) ++
    'e' :: (toString d.leading).toList

def text (d : Decimal) : List Char :=
  if -4 ≤ d.leading ∧ d.leading < 16 then d.positional else d.scientific

end Decimal

namespace Binary

variable {p : Precision}

/-- Text of a finite number. -/
def finiteText (x : Binary p) : List Char :=
  (if x.isNegative then ['-'] else []) ++
    (if x.magnitude = 0 then ['0', '.', '0'] else (p.shortest x.magnitude).text)

/-- Text of any number, as columns show and exchange it. -/
def text (x : Binary p) : String :=
  if x.isNaN then "NaN"
  else if x.isInfinite then (if x.isNegative then "-Infinity" else "Infinity")
  else String.ofList x.finiteText

end Binary

end Columnar

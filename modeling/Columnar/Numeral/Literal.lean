import Columnar.Binary.Rounding
import Columnar.Numeral.Digits
import Columnar.Text.WhiteSpace

/-!
# Floating literals

A literal is an optional sign before a decimal number or one of the words `inf`, `infinity` and
`nan` in any case. A decimal number has digits, a point among or beside them if wanted, and an
optional exponent. It is read as the double nearest to its exact value.
-/

namespace Columnar.Numeral

/-- An unsigned decimal number: the value `digits * 10 ^ exponent`. -/
structure Scientific where
  digits : Nat
  exponent : Int
  deriving DecidableEq, Repr

/-- Reads an exponent part, which may be absent. -/
def readExponent : List Char → Option Int
  | [] => some 0
  | 'e' :: rest => readInt 10 rest
  | 'E' :: rest => readInt 10 rest
  | _ => none

/-- Reads digits with an optional point and exponent; there must be a digit beside the point. -/
def readScientific (cs : List Char) : Option Scientific :=
  let whole := cs.takeWhile (isDigitOf 10)
  let rest := cs.dropWhile (isDigitOf 10)
  let (fraction, rest) :=
    match rest with
    | '.' :: rest => (rest.takeWhile (isDigitOf 10), rest.dropWhile (isDigitOf 10))
    | rest => ([], rest)
  if whole.isEmpty && fraction.isEmpty then none
  else (readExponent rest).map fun e =>
    ⟨digitsValue 10 (whole ++ fraction), e - fraction.length⟩

/-- The double nearest to a decimal number. Powers of ten far beyond the range of doubles are
settled without being computed. -/
def Scientific.toBinary (negative : Bool) (s : Scientific) : Binary .double :=
  if s.digits = 0 then Binary.ofParts negative 0
  else if 400 < s.exponent then Binary.ofParts negative Precision.double.infinity
  else if s.exponent < -((Nat.log2 s.digits : Int) + 400) then Binary.ofParts negative 0
  else Binary.ofQuotient negative (s.digits * 10 ^ s.exponent.toNat) (10 ^ (-s.exponent).toNat)

/-- Reads a floating literal. -/
def readDouble (cs : List Char) : Option (Binary .double) :=
  let (negative, body) := splitSign cs
  match readScientific body with
  | some s => some (s.toBinary negative)
  | none =>
    let word := String.ofList (body.map Char.toLower)
    if word = "inf" ∨ word = "infinity" then
      some (Binary.ofParts negative Precision.double.infinity)
    else if word = "nan" then some Binary.nan
    else none

/-- The double that a text denotes once trimmed, NaN when it denotes none. -/
def doubleOfText (cs : List Char) : Binary .double :=
  (readDouble (Text.trim cs)).getD Binary.nan

end Columnar.Numeral

import Columnar.Numeral.Literal

/-!
# Integer texts

A text denotes an integer in one of three ways: as decimal digits, as hexadecimal digits after
`0x`, or as a floating literal, which is rounded half up. Integers beyond 128 bits are not read as
such; in decimal they fall through to the floating literal.
-/

namespace Columnar.Numeral

/-- Reads a signed number that fits 128 bits. -/
def readWide (base : Nat) (cs : List Char) : Option Int :=
  (readInt base cs).filter Binary.fitsWide

/-- The opposite of a number of 128 bits. That of the least number does not fit, and wraps round to
the number itself (where overflow is checked, the program stops instead). -/
def negateWide (v : Int) : Int := (-v).bmod (2 ^ 128)

/-- What follows a hexadecimal marker. -/
def afterHexMarker : List Char → Option (List Char)
  | '0' :: 'x' :: rest => some rest
  | '0' :: 'X' :: rest => some rest
  | _ => none

/-- Reads what follows the sign of a hexadecimal number; the digits may carry a sign of their
own. -/
def readHex (negative : Bool) (digits : List Char) : Option Int :=
  (readWide 16 digits).map fun v => if negative then negateWide v else v

/-- The integer that a text denotes once trimmed. -/
def integerOfText (cs : List Char) : Option Int :=
  let cs := Text.trim cs
  match readWide 10 cs with
  | some v => some v
  | none =>
    let (negative, body) := splitSign cs
    match afterHexMarker body with
    | some digits => readHex negative digits
    | none => (readDouble cs).bind Binary.roundHalfUp

end Columnar.Numeral

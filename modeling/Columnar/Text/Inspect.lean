import Columnar.Text.PrintableTables
import Columnar.Text.CaseTables

/-!
# Text quoted for inspection

A quoted form that shows what a text holds: quotes, backslashes and the common controls have short
escapes, and every other character that would not show as itself is given by its code point.
-/

namespace Columnar.Text

/-- The lower-case hexadecimal digits of a number. -/
def hexDigits (n : Nat) : List Char := Nat.toDigits 16 n

/-- True of the two halfwidth sound marks, which extend the letter before them but show as letters
themselves. -/
def isHalfwidthSoundMark (c : Char) : Bool := c == '\uff9e' || c == '\uff9f'

/-- True of the letters that fill the place of an absent jamo and show as a blank. -/
def isHangulFiller (c : Char) : Bool :=
  c == '\u115f' || c == '\u1160' || c == '\u3164' || c == '\uffa0'

/-- True of the characters that would blend into their surroundings. -/
def isHidden (c : Char) : Bool :=
  inRanges unprintableRanges c.toNat || isHangulFiller c ||
    (inRanges graphemeExtendRanges c.toNat && !isHalfwidthSoundMark c)

def inspectChar (c : Char) : List Char :=
  match c with
  | '\x00' => ['\\', '0']
  | '\t' => ['\\', 't']
  | '\r' => ['\\', 'r']
  | '\n' => ['\\', 'n']
  | '\\' => ['\\', '\\']
  | '"' => ['\\', '"']
  | c => if isHidden c then ['\\', 'u', '\x7b'] ++ hexDigits c.toNat ++ ['\x7d'] else [c]

def inspect (s : String) : String :=
  String.ofList ('"' :: s.toList.flatMap inspectChar ++ ['"'])

end Columnar.Text

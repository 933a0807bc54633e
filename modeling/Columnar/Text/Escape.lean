import Columnar.Text.Utf16
import Columnar.Text.WhiteSpace

/-!
# Escaped text

Three ways to write text with backslash escapes: for display, where every character is a printable
ASCII one; as a JSON string literal in ASCII; and in the manner of NCCSV, where a quote is doubled
and only controls are escaped. A character without a short escape is written as `\uXXXX`, one
escape for each of its UTF-16 units.

The JSON literal is made in two passes. A library of JSON quotes the text and escapes what it has to;
it leaves characters beyond ASCII as they are, and these are escaped afterwards.
-/

namespace Columnar.Text

/-- A code unit as a backslash, a `u` and four lower-case hexadecimal digits. -/
def unitEscape (u : CodeUnit) : List Char :=
  let n := u.toNat
  ['\\', 'u', Nat.digitChar (n / 0x1000), Nat.digitChar (n / 0x100 % 0x10),
    Nat.digitChar (n / 0x10 % 0x10), Nat.digitChar (n % 0x10)]

def unicodeEscape (c : Char) : List Char := (Utf16.encodeChar c).flatMap unitEscape

/-- The escapes that display and NCCSV have in common. -/
def shortEscape (c : Char) : Option (List Char) :=
  match c with
  | '\\' => some ['\\', '\\']
  | '\n' => some ['\\', 'n']
  | '\r' => some ['\\', 'r']
  | '\t' => some ['\\', 't']
  | _ => none

def isPrintableAscii (c : Char) : Bool := 0x20 ≤ c.toNat && c.toNat < 0x7F

def displayChar (c : Char) : List Char :=
  match shortEscape c with
  | some e => e
  | none => if isPrintableAscii c then [c] else unicodeEscape c

/-- Text in which every control and every character outside ASCII shows as an escape. -/
def display (cs : List Char) : List Char := cs.flatMap displayChar

/-- A character in a JSON string literal: quote and backslash are escaped, and all controls below
the space, some of them by a letter. -/
def jsonChar (c : Char) : List Char :=
  match c with
  | '"' => ['\\', '"']
  | '\\' => ['\\', '\\']
  | '\n' => ['\\', 'n']
  | '\r' => ['\\', 'r']
  | '\t' => ['\\', 't']
  | '\x08' => ['\\', 'b']
  | '\x0c' => ['\\', 'f']
  | c => if c.toNat < 0x20 then unicodeEscape c else [c]

/-- The JSON string literal of a text. -/
def jsonLiteral (cs : List Char) : List Char := '"' :: cs.flatMap jsonChar ++ ['"']

def isAscii (c : Char) : Bool := c.toNat < 0x80

/-- A character of ASCII as it is, and any other one as an escape. -/
def asciiChar (c : Char) : List Char := if isAscii c then [c] else unicodeEscape c

/-- A JSON string literal that holds ASCII only, made of the one that `quote` gives. -/
def jsonQuote (quote : List Char → List Char) (cs : List Char) : List Char :=
  let quoted := quote cs
  if quoted.all isAscii then quoted else quoted.flatMap asciiChar

def nccsvChar (c : Char) : List Char :=
  match shortEscape c with
  | some e => e
  | none =>
    if c = '"' then ['"', '"']
    else if isControl c then unicodeEscape c
    else [c]

def nccsvEscape (cs : List Char) : List Char := cs.flatMap nccsvChar

/-- True when an NCCSV item has to stand in quotes: it holds a separator or a quote, or starts or
ends with a space. -/
def needsQuotes (cs : List Char) : Bool :=
  cs.any (fun c => c == ',' || c == '"') || cs.head? == some ' ' || cs.getLast? == some ' '

/-- An NCCSV item, in quotes only where it needs them. -/
def nccsvQuote (cs : List Char) : List Char :=
  if needsQuotes cs then '"' :: nccsvEscape cs ++ ['"'] else nccsvEscape cs

/-- An NCCSV attribute literal for a single character. -/
def nccsvCharLiteral (cs : List Char) : List Char :=
  ['"', '\x27'] ++ nccsvEscape cs ++ ['\x27', '"']

end Columnar.Text

import Columnar.Numeral.Digits
import Columnar.Text.Utf16

/-!
# JSON documents

A strict reader of JSON. Texts are kept as UTF-16 units, because an escape may name a surrogate
without its partner; whoever needs a text decides whether that is acceptable. Numbers are kept as
their sign, their whole part, and whether anything follows it.
-/

namespace Columnar

inductive Json where
  | null
  | bool (value : Bool)
  /-- A number; `whole` says that it has neither a fraction nor an exponent. -/
  | number (negative : Bool) (integer : Nat) (whole : Bool)
  | string (units : List CodeUnit)
  | array (elements : List Json)
  | object (members : List (List CodeUnit × Json))

namespace Json

def isBlank (c : Char) : Bool := c == ' ' || c == '\n' || c == '\t' || c == '\r'

def skipBlanks (cs : List Char) : List Char := cs.dropWhile isBlank

/-- The unit that a single escaped character stands for. -/
def shortEscape (c : Char) : Option Char :=
  match c with
  | '"' => some '"'
  | '\\' => some '\\'
  | '/' => some '/'
  | 'b' => some '\x08'
  | 'f' => some '\x0c'
  | 'n' => some '\n'
  | 'r' => some '\r'
  | 't' => some '\t'
  | _ => none

/-- The rest of a string after its opening quote, and what stands behind the closing one. -/
def readString (cs : List Char) : Option (List CodeUnit × List Char) :=
  match cs with
  | [] => none
  | '"' :: rest => some ([], rest)
  | '\\' :: 'u' :: a :: b :: c :: d :: rest => do
    let unit ← Numeral.readNat 16 [a, b, c, d]
    let (units, rest) ← readString rest
    return (BitVec.ofNat 16 unit :: units, rest)
  | '\\' :: c :: rest => do
    let plain ← shortEscape c
    let (units, rest) ← readString rest
    return (Utf16.encodeChar plain ++ units, rest)
  | c :: rest => do
    if c = '\\' ∨ c.toNat < 0x20 then none
    let (units, rest) ← readString rest
    return (Utf16.encodeChar c ++ units, rest)

def isDigit (c : Char) : Bool := Numeral.isDigitOf 10 c

/-- Drops one or more digits. -/
def skipDigits (cs : List Char) : Option (List Char) :=
  if (cs.takeWhile isDigit).isEmpty then none else some (cs.dropWhile isDigit)

/-- Drops a fraction if there is one. -/
def skipFraction : List Char → Option (List Char)
  | '.' :: rest => skipDigits rest
  | cs => some cs

/-- Drops an exponent if there is one. -/
def skipExponent (cs : List Char) : Option (List Char) :=
  match cs with
  | c :: rest => if c = 'e' ∨ c = 'E' then skipDigits (Numeral.splitSign rest).2 else some cs
  | [] => some []

/-- Reads a number without superfluous leading zeros. -/
def readNumber (cs : List Char) : Option (Json × List Char) := do
  let (negative, body) : Bool × List Char :=
    match cs with
    | '-' :: rest => (true, rest)
    | _ => (false, cs)
  let digits := if body.head? = some '0' then ['0'] else body.takeWhile isDigit
  let integer ← Numeral.readNat 10 digits
  let afterDigits := body.drop digits.length
  let rest ← skipFraction afterDigits >>= skipExponent
  return (.number negative integer (rest.length == afterDigits.length), rest)

/-- Drops the given characters from the front. -/
def expect (word : List Char) (cs : List Char) : Option (List Char) :=
  if cs.take word.length = word then some (cs.drop word.length) else none

mutual

/-- Reads one value; `fuel` bounds its depth and length. -/
def readValue (fuel : Nat) (cs : List Char) : Option (Json × List Char) :=
  match fuel with
  | 0 => none
  | fuel + 1 =>
    match skipBlanks cs with
    | '"' :: rest => (readString rest).map fun (units, rest) => (.string units, rest)
    | '[' :: rest =>
      match skipBlanks rest with
      | ']' :: rest => some (.array [], rest)
      | _ => (readElements fuel rest).map fun (elements, rest) => (.array elements, rest)
    | '\x7b' :: rest =>
      match skipBlanks rest with
      | '\x7d' :: rest => some (.object [], rest)
      | _ => (readMembers fuel rest).map fun (members, rest) => (.object members, rest)
    | 'n' :: rest => (expect ['u', 'l', 'l'] rest).map (.null, ·)
    | 't' :: rest => (expect ['r', 'u', 'e'] rest).map (.bool true, ·)
    | 'f' :: rest => (expect ['a', 'l', 's', 'e'] rest).map (.bool false, ·)
    | cs => readNumber cs

/-- Reads one or more elements up to the closing bracket. -/
def readElements (fuel : Nat) (cs : List Char) : Option (List Json × List Char) :=
  match fuel with
  | 0 => none
  | fuel + 1 => do
    let (element, rest) ← readValue fuel cs
    match skipBlanks rest with
    | ']' :: rest => return ([element], rest)
    | ',' :: rest =>
      let (elements, rest) ← readElements fuel rest
      return (element :: elements, rest)
    | _ => none

/-- Reads one or more members up to the closing brace. -/
def readMembers (fuel : Nat) (cs : List Char) :
    Option (List (List CodeUnit × Json) × List Char) :=
  match fuel with
  | 0 => none
  | fuel + 1 =>
    match skipBlanks cs with
    | '"' :: rest => do
      let (name, rest) ← readString rest
      match skipBlanks rest with
      | ':' :: rest =>
        let (value, rest) ← readValue fuel rest
        match skipBlanks rest with
        | '\x7d' :: rest => return ([(name, value)], rest)
        | ',' :: rest =>
          let (members, rest) ← readMembers fuel rest
          return ((name, value) :: members, rest)
        | _ => none
      | _ => none
    | _ => none

end

/-- Reads a document that holds one value and nothing else. -/
def read (s : String) : Option Json :=
  match readValue (s.length + 1) s.toList with
  | some (value, rest) => if (skipBlanks rest).isEmpty then some value else none
  | none => none

/-- A text without stray surrogates. -/
def textOf (units : List CodeUnit) : Option String :=
  (Utf16.decodeStrict units).map String.ofList

/-- A count: a whole number without a sign that fits 64 bits. -/
def toCount : Json → Option Nat
  | number false n true => if n < 2 ^ 64 then some n else none
  | _ => none

end Json

end Columnar

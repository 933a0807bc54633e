/-!
# UTF-16 code units

Text as a sequence of 16-bit code units, and back. A surrogate without its partner stands for no
character, so decoding yields an optional character for each unit or pair.
-/

namespace Columnar

/-- A UTF-16 code unit. -/
abbrev CodeUnit := BitVec 16

namespace Utf16

def isHigh (u : CodeUnit) : Bool := 0xD800 ≤ u.toNat && u.toNat < 0xDC00

def isLow (u : CodeUnit) : Bool := 0xDC00 ≤ u.toNat && u.toNat < 0xE000

/-- One unit for a character of the basic plane, a pair of surrogates for any other. -/
def encodeChar (c : Char) : List CodeUnit :=
  let n := c.toNat
  if n < 0x10000 then [BitVec.ofNat 16 n]
  else [BitVec.ofNat 16 (0xD800 + (n - 0x10000) / 0x400),
        BitVec.ofNat 16 (0xDC00 + (n - 0x10000) % 0x400)]

def encode (cs : List Char) : List CodeUnit := cs.flatMap encodeChar

/-- The character of a unit that is no surrogate. -/
def charOfUnit (u : CodeUnit) : Option Char :=
  if isHigh u || isLow u then none else some (Char.ofNat u.toNat)

/-- The character of a pair of surrogates. -/
def charOfPair (high low : CodeUnit) : Char :=
  Char.ofNat (0x10000 + (high.toNat - 0xD800) * 0x400 + (low.toNat - 0xDC00))

/-- The characters that the units spell, `none` for a surrogate without its partner. -/
def decode : List CodeUnit → List (Option Char)
  | [] => []
  | [u] => [charOfUnit u]
  | u :: v :: rest =>
    if isHigh u && isLow v then some (charOfPair u v) :: decode rest
    else charOfUnit u :: decode (v :: rest)

/-- Decoding in which a surrogate without its partner becomes U+FFFD. -/
def decodeLossy (units : List CodeUnit) : List Char :=
  (decode units).map (·.getD '\uFFFD')

/-- Decoding that refuses a surrogate without its partner. -/
def decodeStrict (units : List CodeUnit) : Option (List Char) :=
  (decode units).mapM id

end Utf16

end Columnar

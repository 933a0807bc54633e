import Columnar.Word.Stream

/-!
# DAP records of words

A record takes a multiple of four bytes. Integers narrower than 32 bits are sign-extended into a
slot of four bytes, wider words are big-endian, a code unit is one ISO-8859-1 byte and three zero
bytes, and a text is a 32-bit length, ISO-8859-1 bytes and zero padding. Characters beyond
ISO-8859-1 are written as question marks.
-/

namespace Columnar

namespace Kind

/-- Bytes of a record, `none` for the variable-length text. -/
def recordWidth : Kind → Option Nat
  | long => some 8
  | ulong => some 8
  | double => some 8
  | string => none
  | _ => some 4

end Kind

namespace Word

/-- ISO-8859-1 byte of a code point, a question mark where there is none. -/
def latin1 (code : Nat) : UInt8 := if code ≤ 0xFF then UInt8.ofNat code else 0x3F

/-- Bytes that fill a record up to a multiple of four. -/
def padding (length : Nat) : Nat := (4 - length % 4) % 4

/-- The bytes of an integer word of the given width. -/
def encodeDapInteger (w : IntWidth) (x : BitVec w.bits) : List UInt8 :=
  if w.bytes < 4 then Bytes.bigEndian 4 (x.signExtend 32).toNat
  else Bytes.bigEndian w.bytes x.toNat

/-- The bytes of a word as a record. -/
def encodeDap : {k : Kind} → Word k → List UInt8
  | .signed w, x => encodeDapInteger w x
  | .unsigned w, x => encodeDapInteger w x
  | .floating p, x => Bytes.bigEndian p.bytes (BitVec.toNat x)
  | .char, x => [latin1 (BitVec.toNat x), 0, 0, 0]
  | .string, x =>
    let bytes := (String.toList x).map (latin1 ·.toNat)
    Bytes.bigEndian 4 (bytes.length % 2 ^ 32) ++ bytes ++ List.replicate (padding bytes.length) 0

/-- Reads the record of an integer word; of a narrow one only the low bits of the slot count. -/
def decodeDapInteger (what : String) (w : IntWidth) : Reader (BitVec w.bits) :=
  if w.bytes < 4 then return (← readFixed what 32).setWidth w.bits
  else readFixed what w.bits

/-- Reads the record of a code unit, of which only the first byte counts. -/
def decodeDapUnit : Reader CodeUnit := do
  Reader.require Kind.char.name 4
  return BitVec.ofNat 16 (Bytes.ofLittleEndian ((← Reader.take 4).take 1))

/-- Reads the record of a text. -/
def decodeDapText : Reader String := do
  let length := (← readFixed "string length" 32).toInt
  if length < 0 then throw (.invalidData (.negativeTextLength length))
  let length := length.toNat
  let padded := length + padding length
  Reader.require "string" padded
  return String.ofList (((← Reader.take padded).take length).map fun b => Char.ofNat b.toNat)

/-- Reads one word from its record. -/
def decodeDap : (k : Kind) → Reader (Word k)
  | .signed w => decodeDapInteger (Kind.signed w).name w
  | .unsigned w => decodeDapInteger (Kind.unsigned w).name w
  | .floating p => readFixed (Kind.floating p).name p.bits
  | .char => decodeDapUnit
  | .string => decodeDapText

end Word

end Columnar

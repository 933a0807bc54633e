import Columnar.Bytes.Reader
import Columnar.Word

/-!
# Stream encoding of words

Fixed-width words are written as big-endian numbers. A text is a big-endian 16-bit length in bytes
followed by its UTF-8 form, so texts of more than 65535 bytes have no encoding.
-/

namespace Columnar.Word

/-- The bytes of a word in the stream encoding. -/
def encode : {k : Kind} → Word k → Except ColumnError (List UInt8)
  | .signed w, x => .ok (Bytes.bigEndian w.bytes (BitVec.toNat x))
  | .unsigned w, x => .ok (Bytes.bigEndian w.bytes (BitVec.toNat x))
  | .floating p, x => .ok (Bytes.bigEndian p.bytes (BitVec.toNat x))
  | .char, x => .ok (Bytes.bigEndian 2 (BitVec.toNat x))
  | .string, x =>
    let bytes := Utf8.encode (String.toList x)
    if bytes.length < 65536 then .ok (Bytes.bigEndian 2 bytes.length ++ bytes)
    else .error (.invalidArgument (.textTooLong bytes.length))

/-- Reads a fixed-width word, named `what` in errors. -/
def readFixed (what : String) (bits : Nat) : Reader (BitVec bits) := do
  Reader.require what (bits / 8)
  Reader.word bits

/-- Reads a text: its length, then that many bytes, which have to be UTF-8. -/
def readText : Reader String := do
  let length ← readFixed "string length" 16
  Reader.require "string" length.toNat
  match Utf8.decode (← Reader.take length.toNat) with
  | .ok cs => return String.ofList cs
  | .error fault => throw (.invalidData (.notUtf8 fault))

/-- Reads one word in the stream encoding. -/
def decode : (k : Kind) → Reader (Word k)
  | .signed w => readFixed (Kind.signed w).name w.bits
  | .unsigned w => readFixed (Kind.unsigned w).name w.bits
  | .floating p => readFixed (Kind.floating p).name p.bits
  | .char => readFixed Kind.char.name 16
  | .string => readText

end Columnar.Word

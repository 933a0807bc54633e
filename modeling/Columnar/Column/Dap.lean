import Columnar.Column.Stream
import Columnar.Word.Dap

/-!
# DAP vectors

A vector is the number of elements, twice, as a big-endian 32-bit number, and one record for each
element. The second count is read past without being compared with the first.
-/

namespace Columnar.Column

variable {k : Kind}

def vectorHeader (count : Nat) : List UInt8 := Bytes.bigEndian 4 count ++ Bytes.bigEndian 4 count

/-- Writes the column as a vector and returns the number of bytes. -/
def externalizeDap (c : Column k) : Writer Nat := do
  if 2 ^ 31 ≤ c.size then throw (.invalidArgument (.vectorTooLong k c.size))
  let bytes := vectorHeader c.size ++ c.words.flatMap Word.encodeDap
  Writer.write bytes
  return bytes.length

/-- Reads the header of a vector: a count that is not negative. -/
def readVectorHeader : Reader Nat := do
  Reader.require "DAP vector header" 8
  let count := (← Reader.word 32).toInt
  let _ ← Reader.word 32
  if count < 0 then throw (.invalidData (.negativeCount count))
  return count.toNat

/-- Fails when the records of `count` fixed-width elements are not all there. -/
def requireRecords (k : Kind) (count : Nat) : Reader Unit :=
  match k.recordWidth with
  | some width => Reader.require "DAP vector" (count * width)
  | none => return

/-- Reads the elements of a vector. -/
def readVector (k : Kind) : Reader (List (Word k)) := do
  let count ← readVectorHeader
  requireRecords k count
  readWords (Word.decodeDap k) count

/-- Adds the elements of a vector read from the input. Returns the number of bytes taken. -/
def internalizeDap (env : Environment) : Feed k Nat := do
  let before := (← get).input.length
  let words ← Feed.ofReader (readVector k)
  Feed.ofEdit (addWords env words)
  return before - (← get).input.length

end Columnar.Column

import Columnar.Column.Edit
import Columnar.Word.Stream

/-!
# Stream encoding of columns

The elements one after the other in the stream encoding of their words. Nothing is written unless
every element has an encoding, and nothing is added to a column unless every element could be read;
a reading that fails has still taken bytes from its input.
-/

namespace Columnar

/-- An action that appends bytes to an output. -/
abbrev Writer := EStateM ColumnError (List UInt8)

namespace Writer

def write (bytes : List UInt8) : Writer Unit := modify (· ++ bytes)

def ofExcept {α : Type} (r : Except ColumnError α) : Writer α :=
  match r with
  | .ok a => pure a
  | .error e => throw e

end Writer

/-- A column together with the bytes that it takes elements from. -/
structure Intake (k : Kind) where
  column : Column k
  input : List UInt8

/-- An action that feeds a column from an input. -/
abbrev Feed (k : Kind) := EStateM ColumnError (Intake k)

namespace Feed

variable {k : Kind} {α : Type}

/-- Reads from the input. -/
def ofReader (r : Reader α) : Feed k α := fun s =>
  match r s.input with
  | .ok a input => .ok a { s with input }
  | .error e input => .error e { s with input }

/-- Acts on the column. -/
def ofEdit (e : Edit k α) : Feed k α := fun s =>
  match e s.column with
  | .ok a column => .ok a { s with column }
  | .error e column => .error e { s with column }

/-- Feeds a column from an input that is dropped afterwards. -/
def toEdit (f : Feed k α) (input : List UInt8) : Edit k α := fun c =>
  match f ⟨c, input⟩ with
  | .ok a s => .ok a s.column
  | .error e s => .error e s.column

end Feed

namespace Column

variable {k : Kind}

/-- Reads `n` words one after the other; `done` holds the words before them, latest first. -/
def readWordsAfter (read : Reader (Word k)) (done : List (Word k)) : Nat → Reader (List (Word k))
  | 0 => return done.reverse
  | n + 1 => do readWordsAfter read ((← read) :: done) n

/-- Reads `n` words one after the other. -/
def readWords (read : Reader (Word k)) (n : Nat) : Reader (List (Word k)) :=
  readWordsAfter read [] n

/-- Writes every element. Returns the bytes of the last one, 0 for an empty column. -/
def writeTo (c : Column k) : Writer Nat := do
  let staged ← Writer.ofExcept (c.words.mapM Word.encode)
  Writer.write staged.flatten
  return (staged.getLast?.map List.length).getD 0

/-- Writes one element and returns the number of its bytes. -/
def writeElementTo (c : Column k) (i : Nat) : Writer Nat := do
  let bytes ← Writer.ofExcept ((c.wordAt i) >>= Word.encode)
  Writer.write bytes
  return bytes.length

/-- Fails when the bytes of `n` fixed-width elements cannot be counted or are not there. -/
def requireElements (k : Kind) (n : Nat) : Reader Unit := do
  if k.streamWidth ≠ 0 then
    if 2 ^ 64 ≤ n * k.streamWidth then throw (.invalidData (.countTooLarge k n))
    Reader.require k.name (n * k.streamWidth)

/-- Reads `n` words in the stream encoding. -/
def readStream (k : Kind) (n : Nat) : Reader (List (Word k)) := do
  requireElements k n
  readWords (Word.decode k) n

/-- Adds `n` elements read from the input. -/
def readFrom (env : Environment) (n : Nat) : Feed k Unit := do
  let words ← Feed.ofReader (readStream k n)
  Feed.ofEdit (addWords env words)

end Column

end Columnar

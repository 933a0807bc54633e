import Columnar.Error
import Columnar.Word

/-!
# Columns

A column owns a buffer of slots, of which the first `size` hold its elements; the slots after them
are spare and hold the zero word. The flag says whether a sentinel among the elements means that the
element is missing; it is always up for the kinds whose sentinel has no other use.

`Column.words` is the list of elements, in which every operation is described.
-/

namespace Columnar

structure Column (k : Kind) where
  slots : Array (Word k)
  size : Nat
  flag : Bool

/-- A column of a kind that is known only when it is used. -/
structure AnyColumn where
  {kind : Kind}
  column : Column kind

namespace Column

variable {k : Kind}

def capacity (c : Column k) : Nat := c.slots.size

/-- The stored elements in order. -/
def words (c : Column k) : List (Word k) := c.slots.toList.take c.size

/-- A column over the given slots, with the flag as its kind wants it at first. -/
def ofSlots (slots : Array (Word k)) (size : Nat) : Column k :=
  ⟨slots, size, k.missingFixed⟩

def isFull (c : Column k) : Bool := c.size == c.capacity

/-- True when a word of this column reads as missing. -/
def readsMissing (c : Column k) (w : Word k) : Bool := c.flag && w.isSentinel

/-- Raises the flag if `up` is true; the flag is never lowered. -/
def withFlag (c : Column k) (up : Bool) : Column k := { c with flag := c.flag || up }

/-- The element at an index. -/
def wordAt (c : Column k) (i : Nat) : Except ColumnError (Word k) :=
  if i < c.size then .ok (c.slots.getD i (Word.zero k))
  else .error (.indexOutOfBounds k i c.size)

end Column

namespace AnyColumn

/-- The column itself if it is of kind `k`. -/
def as? (k : Kind) (a : AnyColumn) : Option (Column k) :=
  if h : a.kind = k then some (h ▸ a.column) else none

end AnyColumn

end Columnar

import Columnar.Column.Growth
import Columnar.Word.Bytes
import Columnar.Word.Sort

/-!
# Editing columns

Elements are stored, inserted, removed and moved inside the buffer. A block of elements is shifted
by exchanging it with an adjacent one, a choice of elements is brought together by exchanging single
slots, and everything that removes elements zeroes the slots that become spare.
-/

namespace Columnar.Column

variable {k : Kind}

/-! ## Steps on the buffer -/

/-- Exchanges the adjacent blocks `[low, middle)` and `[middle, high)` of slots. -/
def swapBlocks (c : Column k) (low middle high : Nat) : Column k :=
  { c with
    slots := c.slots.extract 0 low ++ c.slots.extract middle high ++
      c.slots.extract low middle ++ c.slots.extract high c.slots.size }

/-- Keeps the first `size` elements and zeroes the slots of the others. -/
def truncate (c : Column k) (size : Nat) : Column k :=
  { c with
    slots := c.slots.extract 0 size ++ Array.replicate (c.size - size) (Word.zero k) ++
      c.slots.extract c.size c.slots.size
    size := size }

/-- Stores a word in a slot. -/
def put (c : Column k) (i : Nat) (w : Word k) : Column k :=
  { c with slots := c.slots.setIfInBounds i w }

/-- Takes the first spare slot into use. -/
def push (c : Column k) (w : Word k) : Column k :=
  { c with slots := c.slots.setIfInBounds c.size w, size := c.size + 1 }

/-- Takes as many spare slots into use as there are words. -/
def pushAll (c : Column k) (words : Array (Word k)) : Column k :=
  { c with
    slots := c.slots.extract 0 c.size ++ words ++
      c.slots.extract (c.size + words.size) c.slots.size
    size := c.size + words.size }

/-- Replaces the elements by as many or fewer words. -/
def replace (c : Column k) (words : Array (Word k)) : Column k :=
  { c with
    slots := words ++ Array.replicate (c.size - words.size) (Word.zero k) ++
      c.slots.extract c.size c.slots.size
    size := words.size }

/-- Brings the slots from `i` on whose mask bit is set forward to `kept` and the places after it,
each in exchange for the slot that stands there. Returns the slots and the number of those kept. -/
def compact (slots : Array (Word k)) (kept i : Nat) : List Bool → Array (Word k) × Nat
  | [] => (slots, kept)
  | true :: mask => compact (slots.swapIfInBounds kept i) (kept + 1) (i + 1) mask
  | false :: mask => compact slots kept (i + 1) mask

/-- Applies a function to every element in place. -/
def mapWords (f : Word k → Word k) (c : Column k) : Column k :=
  c.replace ((c.slots.extract 0 c.size).map f)

/-! ## Storing and adding -/

def setWord (i : Nat) (w : Word k) : Edit k Unit := do
  let _ ← (← get).wordAt i
  modify (·.put i w)

def addWord (env : Environment) (w : Word k) : Edit k Unit := do
  reserveOne env
  modify (·.push w)

def addWords (env : Environment) (words : List (Word k)) : Edit k Unit := do
  reserve env words.length
  modify (·.pushAll words.toArray)

/-- Adds `n` copies of a word; adding none asks for no room. -/
def addCopies (env : Environment) (n : Nat) (w : Word k) : Edit k Unit := do
  if n ≠ 0 then
    reserve env n
    modify (·.pushAll (Array.replicate n w))

/-- Inserts a word before the element at an index, or at the end. -/
def insertWord (env : Environment) (i : Nat) (w : Word k) : Edit k Unit := do
  let size := (← get).size
  if size < i then throw (.insertOutOfBounds k i size)
  reserveOne env
  modify fun c => (c.push w).swapBlocks i size (size + 1)

/-! ## Removing -/

/-- Removes the element at an index and returns it. -/
def removeWord (i : Nat) : Edit k (Word k) := do
  let w ← (← get).wordAt i
  modify fun c => (c.swapBlocks i (i + 1) c.size).truncate (c.size - 1)
  return w

/-- Removes the elements of `[start, stop)`. -/
def removeRange (start stop : Nat) : Edit k Unit := do
  let size := (← get).size
  if size < stop then throw (.indexOutOfBounds k stop size)
  if stop < start then throw (.invalidArgument (.removeRangeReversed k start stop))
  modify fun c => (c.swapBlocks start stop c.size).truncate (c.size - (stop - start))

def clear : Edit k Unit := modify (·.truncate 0)

/-- Keeps the elements whose mask bit exists and is set. -/
def justKeep (mask : List Bool) : Edit k Unit :=
  modify fun c =>
    let (slots, kept) := compact c.slots 0 0 (mask.take c.size)
    { c with slots }.truncate kept

/-! ## Rearranging -/

/-- Moves the elements of `[first, last)` so that they stand before the element that is now at
`destination`, which must not be one of the inner ones. -/
def moveRange (first last destination : Nat) : Edit k Unit := do
  let size := (← get).size
  if size < last then throw (.indexOutOfBounds k last size)
  if size < destination then throw (.indexOutOfBounds k destination size)
  if last < first then throw (.invalidArgument (.moveRangeReversed k first last))
  if first < destination ∧ destination < last then
    throw (.invalidArgument (.moveRangeInside k destination first last))
  if destination < first then modify (·.swapBlocks destination first last)
  else if last < destination then modify (·.swapBlocks first last destination)

/-- Puts the element that is now at `rank[i]` at every index `i`. The elements pass through a new
buffer of the same capacity. -/
def reorder (env : Environment) (rank : List Nat) : Edit k Unit := do
  let c ← get
  if rank.length ≠ c.size then
    throw (.invalidArgument (.rankLength k rank.length c.size))
  if let some bad := rank.find? (c.size ≤ ·) then throw (.indexOutOfBounds k bad c.size)
  let fresh ← allocate env k c.capacity
  let ranked := rank.map fun i => c.slots.getD i (Word.zero k)
  set { c with slots := ranked.toArray ++ fresh.extract c.size fresh.size }

/-- Stores the element at `source` over the one at `target`. -/
def copyWithin (source target : Nat) : Edit k Unit := do
  let w ← (← get).wordAt source
  setWord target w

def reverse : Edit k Unit := modify fun c => c.replace (c.slots.extract 0 c.size).reverse

/-- Sorts the elements, a sentinel behind all other words. -/
def sort (env : Environment) : Edit k Unit :=
  modify fun c =>
    c.replace (Word.sortWords (env.sorter (env.parallelSortThreshold ≤ c.size)) c.words).toArray

/-! ## Changing words -/

/-- Reverses the bytes of every element. -/
def swapByteOrder : Edit k Unit := modify (mapWords Word.swapBytes)

/-- Flips the top bit of every element of an integer column. -/
def flipSigns : Edit k Unit := modify (mapWords Word.flipSign)

def raiseFlag : Edit k Unit := modify (·.withFlag true)

/-! ## By value -/

def setValue (i : Nat) (v : Value k) : Edit k Unit := setWord i (Word.pack v)

def addValue (env : Environment) (v : Value k) : Edit k Unit := addWord env (Word.pack v)

def addValueCopies (env : Environment) (n : Nat) (v : Value k) : Edit k Unit :=
  addCopies env n (Word.pack v)

def insertValue (env : Environment) (i : Nat) (v : Value k) : Edit k Unit :=
  insertWord env i (Word.pack v)

def removeValue (i : Nat) : Edit k (Value k) := return Word.unpack (← removeWord i)

end Columnar.Column

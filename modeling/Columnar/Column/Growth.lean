import Columnar.Column
import Columnar.Environment

/-!
# Growth of columns

New slots are granted up to a largest column size, up to the byte budget of the configuration, and
as far as the allocator has memory. A column that has to grow at least doubles, as far as the
largest size allows, so it is the doubled capacity that has to fit the budget.

An `Edit` acts on a column and keeps what it has done to it even when it fails; that failing edits
leave their column alone is a matter of the order of their steps.
-/

namespace Columnar

/-- An action on a column of kind `k`. -/
abbrev Edit (k : Kind) := EStateM ColumnError (Column k)

namespace Edit

variable {k : Kind} {α : Type}

/-- An action that looks at nothing and changes nothing. -/
def ofExcept (r : Except ColumnError α) : Edit k α :=
  match r with
  | .ok a => pure a
  | .error e => throw e

instance : MonadLift (Except ColumnError) (Edit k) := ⟨ofExcept⟩

end Edit

namespace Column

variable {k : Kind}

/-- Largest capacity of a column. -/
def maxSize : Nat := 2147483639

/-- Fails when `requested` slots are more than the largest size. They are counted in 64 bits: where
the sum that makes up a request is beyond them, the program stops. -/
def checkSize (k : Kind) (requested : Nat) : Except ColumnError Unit :=
  if 2 ^ 64 ≤ requested then .error (.sizeOverflow k)
  else if maxSize < requested then .error (.capacityExceeded k requested maxSize)
  else .ok ()

/-- Fails when a buffer of `count` slots is beyond the budget. -/
def checkBudget (cfg : Config) (k : Kind) (count : Nat) : Except ColumnError Unit :=
  match cfg.memoryLimitBytes with
  | some limit =>
    if limit < count * k.slotBytes then .error (.outOfMemory k (count * k.slotBytes)) else .ok ()
  | none => .ok ()

/-- Fails when the allocator has no buffer of `count` slots; it is not asked for an empty one. -/
def checkGrant (env : Environment) (k : Kind) (count : Nat) : Except ColumnError Unit :=
  if count ≠ 0 ∧ env.grants (count * k.slotBytes) = false then
    .error (.outOfMemory k (count * k.slotBytes))
  else .ok ()

/-- Fails when there is no memory for a buffer of `count` slots. -/
def checkMemory (env : Environment) (k : Kind) (count : Nat) : Except ColumnError Unit := do
  checkBudget env.toConfig k count
  checkGrant env k count

/-- A buffer of zero words. -/
def allocate (env : Environment) (k : Kind) (count : Nat) : Except ColumnError (Array (Word k)) := do
  checkSize k count
  checkMemory env k count
  return Array.replicate count (Word.zero k)

/-! ## Construction -/

/-- An empty column of the configured capacity, which is not checked against the budget. -/
def empty (env : Environment) (k : Kind) : Column k :=
  ofSlots (Array.replicate env.initialCapacity (Word.zero k)) 0

def withCapacity (env : Environment) (k : Kind) (capacity : Nat) : Except ColumnError (Column k) :=
  return ofSlots (← allocate env k capacity) 0

/-- A column of `size` zero words. -/
def zeroed (env : Environment) (k : Kind) (size : Nat) : Except ColumnError (Column k) :=
  return ofSlots (← allocate env k size) size

/-- A column that takes the given words as its buffer; the budget does not apply to them. -/
def ofWords (words : List (Word k)) : Except ColumnError (Column k) := do
  checkSize k words.length
  return ofSlots words.toArray words.length

def ofValues (values : List (Value k)) : Except ColumnError (Column k) :=
  ofWords (values.map Word.pack)

/-! ## Growing and shrinking -/

/-- Moves the elements to the front of another buffer. -/
def moveInto (c : Column k) (fresh : Array (Word k)) : Column k :=
  { c with slots := c.slots.extract 0 c.size ++ fresh.extract c.size fresh.size }

/-- Capacity after growth: at least double, as far as the largest size allows. -/
def grownCapacity (capacity minimum : Nat) : Nat := max minimum (min (2 * capacity) maxSize)

/-- Makes room for at least `minimum` elements. -/
def ensureCapacity (env : Environment) (minimum : Nat) : Edit k Unit := do
  let c ← get
  if c.capacity < minimum then
    checkSize k minimum
    let fresh ← allocate env k (grownCapacity c.capacity minimum)
    set (c.moveInto fresh)

/-- Makes room for `additional` more elements. -/
def reserve (env : Environment) (additional : Nat) : Edit k Unit := do
  let needed := (← get).size + additional
  checkSize k needed
  ensureCapacity env needed

/-- Makes room for one more element if there is none. -/
def reserveOne (env : Environment) : Edit k Unit := do
  if (← get).isFull then reserve env 1

/-- Gives up the spare slots. -/
def trimToSize : Edit k Unit :=
  modify fun c => { c with slots := c.slots.extract 0 c.size }

end Column

end Columnar

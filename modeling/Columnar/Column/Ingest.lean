import Columnar.Column.Edit
import Columnar.Scalar
import Columnar.Text.Csv

/-!
# Values of other types entering a column

Integers, doubles, code units, texts and scalars are converted to the kind of the column. A value
that the kind cannot hold is stored as the sentinel and raises the flag, once everything that can
fail is past.
-/

namespace Columnar.Column

variable {k : Kind}

/-- The word to store for a conversion result; without one it is the sentinel, and the flag goes
up. -/
def settle (converted : Option (Word k)) : Edit k (Word k) :=
  match converted with
  | some w => return w
  | none => do
    raiseFlag
    return Word.sentinel k

def addConverted (env : Environment) (converted : Option (Word k)) : Edit k Unit := do
  reserve env 1
  addWord env (← settle converted)

def addConvertedCopies (env : Environment) (n : Nat) (converted : Option (Word k)) : Edit k Unit := do
  if n ≠ 0 then
    reserve env n
    addCopies env n (← settle converted)

def setConverted (i : Nat) (converted : Option (Word k)) : Edit k Unit := do
  let _ ← (← get).wordAt i
  setWord i (← settle converted)

def addInt (env : Environment) (v : Int) : Edit k Unit := addConverted env (Word.ofInt k v)

def addDouble (env : Environment) (x : Binary .double) : Edit k Unit :=
  addConverted env (Word.ofDouble k x)

def addText (env : Environment) (s : String) : Edit k Unit := addConverted env (Word.ofText k s)

def addUnit (env : Environment) (u : CodeUnit) : Edit k Unit := addConverted env (Word.ofUnit k u)

def addScalar (env : Environment) (s : Scalar) : Edit k Unit := addConverted env (s.toWord k)

def addIntCopies (env : Environment) (n : Nat) (v : Int) : Edit k Unit :=
  addConvertedCopies env n (Word.ofInt k v)

def addDoubleCopies (env : Environment) (n : Nat) (x : Binary .double) : Edit k Unit :=
  addConvertedCopies env n (Word.ofDouble k x)

def addTextCopies (env : Environment) (n : Nat) (s : String) : Edit k Unit :=
  addConvertedCopies env n (Word.ofText k s)

def addScalarCopies (env : Environment) (n : Nat) (s : Scalar) : Edit k Unit :=
  addConvertedCopies env n (s.toWord k)

def setInt (i : Nat) (v : Int) : Edit k Unit := setConverted i (Word.ofInt k v)

def setDouble (i : Nat) (x : Binary .double) : Edit k Unit := setConverted i (Word.ofDouble k x)

def setText (i : Nat) (s : String) : Edit k Unit := setConverted i (Word.ofText k s)

def setScalar (i : Nat) (s : Scalar) : Edit k Unit := setConverted i (s.toWord k)

def insertText (env : Environment) (i : Nat) (s : String) : Edit k Unit := do
  let size := (← get).size
  if size < i then throw (.insertOutOfBounds k i size)
  reserve env 1
  insertWord env i (← settle (Word.ofText k s))

/-- Replaces every element equal to the word of one text by the word of another. A text without a
word stands for the sentinel. Returns the number of elements replaced. -/
def switchText (source target : String) : Edit k Nat := do
  let old := (Word.ofText k source).getD (Word.sentinel k)
  let new := (Word.ofText k target).getD (Word.sentinel k)
  if (old.compare new).isEq then return 0
  let count := (← get).words.countP (matchesWord old)
  modify (mapWords fun w => if matchesWord old w then new else w)
  if count ≠ 0 ∧ new.isSentinel then raiseFlag
  return count

/-! ## Construction from text -/

/-- The result of an edit on a fresh column. -/
def build (c : Column k) (e : Edit k Unit) : Except ColumnError (Column k) :=
  match e c with
  | .ok _ c => .ok c
  | .error e _ => .error e

/-- A column of the comma-separated items of a text; an item that the kind cannot hold is
missing. -/
def ofCsv (env : Environment) (k : Kind) (s : String) : Except ColumnError (Column k) := do
  let items := Text.splitCsv s
  build (← withCapacity env k items.length) (items.forM (addText env))

end Columnar.Column

import Columnar.Column.Growth
import Columnar.Word.Order
import Columnar.Word.Text

/-!
# Looking at columns

Elements as values, integers, doubles and text. The plain getters honour the flag: a missing element
is no integer, the double NaN, and the empty text. The raw ones show what is stored.

A subset is a new column; searching compares by the order of the kind.
-/

namespace Columnar.Column

variable {k : Kind}

/-! ## Elements -/

def valueAt (c : Column k) (i : Nat) : Except ColumnError (Value k) :=
  return (← c.wordAt i).unpack

def missingAt (c : Column k) (i : Nat) : Except ColumnError Bool :=
  return c.readsMissing (← c.wordAt i)

/-- True when the element is the sentinel, whether that means missing or not. -/
def sentinelAt (c : Column k) (i : Nat) : Except ColumnError Bool :=
  return (← c.wordAt i).isSentinel

def doubleOf (c : Column k) (w : Word k) : Binary .double :=
  if c.readsMissing w then Binary.nan else w.toDouble

def integerOf (c : Column k) (w : Word k) : Option Int :=
  if c.readsMissing w then none else w.toInt

def textOf (c : Column k) (w : Word k) : String :=
  if c.readsMissing w then "" else w.valueText

def doubleAt (c : Column k) (i : Nat) : Except ColumnError (Binary .double) :=
  return c.doubleOf (← c.wordAt i)

def rawDoubleAt (c : Column k) (i : Nat) : Except ColumnError (Binary .double) :=
  return (← c.wordAt i).toDouble

def integerAt (c : Column k) (i : Nat) : Except ColumnError (Option Int) :=
  return c.integerOf (← c.wordAt i)

def rawIntegerAt (c : Column k) (i : Nat) : Except ColumnError (Option Int) :=
  return (← c.wordAt i).toInt

/-- The element as an integer that fits 64 bits. -/
def longAt (c : Column k) (i : Nat) : Except ColumnError (Option Int) :=
  return (← c.integerAt i).filter fun v => -(2 ^ 63) ≤ v && v < 2 ^ 63

def textAt (c : Column k) (i : Nat) : Except ColumnError String :=
  return c.textOf (← c.wordAt i)

def rawTextAt (c : Column k) (i : Nat) : Except ColumnError String :=
  return (← c.wordAt i).text

def doubles (c : Column k) : List (Binary .double) := c.words.map c.doubleOf

def texts (c : Column k) : List String := c.words.map c.textOf

/-- The sentinel as a double: NaN for floating numbers and text, otherwise its value. -/
def missingDouble (k : Kind) : Binary .double :=
  if k.isFloating || k == .string then Binary.nan else (Word.sentinel k).toDouble

/-! ## Parts -/

/-- Every element at a distance of `stride + 1` from the one before, beginning with the first. -/
def everyNth {α : Type} (stride : Nat) (l : List α) : List α :=
  match l with
  | [] => []
  | a :: rest => a :: everyNth stride (rest.drop stride)
  termination_by l.length
  decreasing_by simp only [List.length_drop, List.length_cons]; omega

/-- Every `stride`th element from `start` to `stop`, both included as far as there are elements. -/
def subset (c : Column k) (start stride stop : Nat) : Except ColumnError (Column k) :=
  if stride = 0 then .error (.invalidArgument (.strideZero k)) else do
  let picked ← ofWords (everyNth (stride - 1) ((c.words.take (stop + 1)).drop start))
  return picked.withFlag c.flag

/-! ## Search -/

def matchesWord (target w : Word k) : Bool := (w.compare target).isEq

/-- Index of the first element from `start` on that compares equal to the value. -/
def indexOf (c : Column k) (v : Value k) (start : Nat) : Option Nat :=
  ((c.words.drop start).findIdx? (matchesWord (Word.pack v))).map (start + ·)

/-- Index of the last element up to `start` that compares equal to the value. -/
def lastIndexOf (c : Column k) (v : Value k) (start : Nat) : Except ColumnError (Option Nat) := do
  let _ ← c.wordAt start
  return ((c.words.take (start + 1)).reverse.findIdx? (matchesWord (Word.pack v))).map (start - ·)

end Columnar.Column

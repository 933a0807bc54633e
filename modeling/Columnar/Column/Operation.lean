import Columnar.Column.Dap
import Columnar.Column.Transfer

/-!
# Operations as data

Every way to change a column, with its arguments, as one value. `Operation.run` gives the edit that
an operation stands for, so what holds of all edits can be said of all operations, and a history of
a column is a list of them.
-/

namespace Columnar

/-- A change to a column of kind `k`. -/
inductive Operation (k : Kind) where
  | setWord (i : Nat) (w : Word k)
  | setValue (i : Nat) (v : Value k)
  | addWord (w : Word k)
  | addWords (words : List (Word k))
  | addWordCopies (n : Nat) (w : Word k)
  | addValue (v : Value k)
  | addValueCopies (n : Nat) (v : Value k)
  | insertWord (i : Nat) (w : Word k)
  | insertValue (i : Nat) (v : Value k)
  | removeScalar (i : Nat)
  | removeValue (i : Nat)
  | removeRange (start stop : Nat)
  | clear
  | ensureCapacity (minimum : Nat)
  | trimToSize
  | moveRange (first last destination : Nat)
  | justKeep (mask : List Bool)
  | reorder (rank : List Nat)
  | copyWithin (source target : Nat)
  | reverse
  | sort
  | swapByteOrder
  | flipSigns
  | raiseFlag
  | withFlag (up : Bool)
  | switchText (source target : String)
  | addInt (v : Int)
  | addDouble (x : Binary .double)
  | addText (s : String)
  | addUnit (u : CodeUnit)
  | addScalar (s : Scalar)
  | addIntCopies (n : Nat) (v : Int)
  | addDoubleCopies (n : Nat) (x : Binary .double)
  | addTextCopies (n : Nat) (s : String)
  | addScalarCopies (n : Nat) (s : Scalar)
  | setInt (i : Nat) (v : Int)
  | setDouble (i : Nat) (x : Binary .double)
  | setText (i : Nat) (s : String)
  | setScalar (i : Nat) (s : Scalar)
  | insertText (i : Nat) (s : String)
  | append (source : AnyColumn)
  | appendRaw (source : AnyColumn)
  | addFrom (source : AnyColumn) (start count : Nat)
  | setFrom (i : Nat) (source : AnyColumn) (j : Nat)
  | readFrom (n : Nat) (input : List UInt8)
  | internalizeDap (input : List UInt8)

/-- What an operation returns. -/
inductive Answer (k : Kind) where
  | done
  | value (v : Value k)
  | scalar (s : Scalar)
  | count (n : Nat)

namespace Column

variable {k : Kind}

/-- Removes the element at an index and returns it as a scalar. -/
def removeScalar (i : Nat) : Edit k Scalar := do
  let s ← (← get).scalarAt i
  let _ ← removeWord i
  return s

end Column

namespace Operation

variable {k : Kind}

/-- An edit that returns nothing, as an operation's one. -/
def done (e : Edit k Unit) : Edit k (Answer k) := do
  e
  return .done

/-- The edit that an operation stands for. -/
def run (env : Environment) : Operation k → Edit k (Answer k)
  | setWord i w => done (Column.setWord i w)
  | setValue i v => done (Column.setValue i v)
  | addWord w => done (Column.addWord env w)
  | addWords words => done (Column.addWords env words)
  | addWordCopies n w => done (Column.addCopies env n w)
  | addValue v => done (Column.addValue env v)
  | addValueCopies n v => done (Column.addValueCopies env n v)
  | insertWord i w => done (Column.insertWord env i w)
  | insertValue i v => done (Column.insertValue env i v)
  | removeScalar i => .scalar <$> Column.removeScalar i
  | removeValue i => .value <$> Column.removeValue i
  | removeRange start stop => done (Column.removeRange start stop)
  | clear => done Column.clear
  | ensureCapacity minimum => done (Column.ensureCapacity env minimum)
  | trimToSize => done Column.trimToSize
  | moveRange first last destination => done (Column.moveRange first last destination)
  | justKeep mask => done (Column.justKeep mask)
  | reorder rank => done (Column.reorder env rank)
  | copyWithin source target => done (Column.copyWithin source target)
  | reverse => done Column.reverse
  | sort => done (Column.sort env)
  | swapByteOrder => done Column.swapByteOrder
  | flipSigns => done Column.flipSigns
  | raiseFlag => done Column.raiseFlag
  | withFlag up => done (modify (Column.withFlag · up))
  | switchText source target => .count <$> Column.switchText source target
  | addInt v => done (Column.addInt env v)
  | addDouble x => done (Column.addDouble env x)
  | addText s => done (Column.addText env s)
  | addUnit u => done (Column.addUnit env u)
  | addScalar s => done (Column.addScalar env s)
  | addIntCopies n v => done (Column.addIntCopies env n v)
  | addDoubleCopies n x => done (Column.addDoubleCopies env n x)
  | addTextCopies n s => done (Column.addTextCopies env n s)
  | addScalarCopies n s => done (Column.addScalarCopies env n s)
  | setInt i v => done (Column.setInt i v)
  | setDouble i x => done (Column.setDouble i x)
  | setText i s => done (Column.setText i s)
  | setScalar i s => done (Column.setScalar i s)
  | insertText i s => done (Column.insertText env i s)
  | append source => done (Column.append env source)
  | appendRaw source => done (Column.appendRaw env source)
  | addFrom source start count => done (Column.addFrom env source start count)
  | setFrom i source j => done (Column.setFrom i source j)
  | readFrom n input => done ((Column.readFrom env n).toEdit input)
  | internalizeDap input => .count <$> (Column.internalizeDap env).toEdit input

end Operation

end Columnar

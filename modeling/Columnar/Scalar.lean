import Columnar.Column.View

/-!
# Scalars

A single value that has left its column but kept its kind: an integer, a double, a code unit or a
text, or the fact that it was missing. A scalar that is made for a kind has been converted to that
kind, and what the kind cannot hold has become missing.
-/

namespace Columnar

/-- What a scalar holds. -/
inductive Payload where
  | missing
  | integer (v : Int)
  | floating (x : Binary .double)
  | unit (u : CodeUnit)
  | text (s : String)
  deriving DecidableEq

namespace Payload

/-- Equality of payloads; doubles are equal by value. -/
def same : Payload → Payload → Bool
  | floating x, floating y => x.sameValue y
  | a, b => a == b

end Payload

structure Scalar where
  kind : Kind
  payload : Payload

namespace Scalar

def same (a b : Scalar) : Bool := a.kind == b.kind && a.payload.same b.payload

def isMissing (s : Scalar) : Bool := s.payload == .missing

/-- The payload of a word that is not missing. -/
def payloadOf : {k : Kind} → Word k → Payload
  | .signed _, x => .integer (BitVec.toInt x)
  | .unsigned _, x => .integer (BitVec.toNat x)
  | .floating _, x => .floating (Binary.toDouble x)
  | .char, x => .unit x
  | .string, x => .text x

def ofWord {k : Kind} (w : Word k) (missing : Bool) : Scalar :=
  ⟨k, if missing then .missing else payloadOf w⟩

/-- The scalar of a conversion result; a sentinel that can only mean missing is missing. -/
def ofConverted {k : Kind} (converted : Option (Word k)) : Scalar :=
  match converted with
  | some w => ofWord w (k.missingFixed && w.isSentinel)
  | none => ⟨k, .missing⟩

def ofInt (k : Kind) (v : Int) : Scalar := ofConverted (Word.ofInt k v)

def ofDouble (k : Kind) (x : Binary .double) : Scalar := ofConverted (Word.ofDouble k x)

def ofUnit (k : Kind) (u : CodeUnit) : Scalar := ofConverted (Word.ofUnit k u)

def ofText (k : Kind) (s : String) : Scalar := ofConverted (Word.ofText k s)

/-- Smallest value of a kind. -/
def lowest (k : Kind) : Scalar := ofWord (Word.lowest k) false

/-- Largest value of a kind other than its sentinel. -/
def highest (k : Kind) : Scalar := ofWord (Word.highest k) false

/-- The word of a kind for this scalar, `none` when it is missing or does not fit. -/
def toWord (s : Scalar) (k : Kind) : Option (Word k) :=
  match s.payload with
  | .missing => none
  | .integer v => Word.ofInt k v
  | .floating x => Word.ofDouble k x
  | .unit u => Word.ofUnit k u
  | .text t => Word.ofText k t

def toDouble (s : Scalar) : Binary .double :=
  match s.payload with
  | .missing => Binary.nan
  | .integer v => Binary.ofInt v
  | .floating x => x
  | .unit u => Binary.ofInt u.toNat
  | .text t => Numeral.doubleOfText t.toList

def toInt (s : Scalar) : Option Int :=
  match s.payload with
  | .missing => none
  | .integer v => some v
  | .floating x => x.roundHalfUp
  | .unit u => some u.toNat
  | .text t => Numeral.integerOfText t.toList

/-- Text in the style of the scalar's kind, empty when it is missing. -/
def text (s : Scalar) : String :=
  match s.toWord s.kind with
  | some w => w.valueText
  | none => ""

end Scalar

namespace Column

variable {k : Kind}

/-- The element as a scalar. -/
def scalarAt (c : Column k) (i : Nat) : Except ColumnError Scalar := do
  let w ← c.wordAt i
  return Scalar.ofWord w (c.readsMissing w)

end Column

end Columnar

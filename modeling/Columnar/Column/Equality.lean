import Columnar.Column.View

/-!
# Equality and hash codes

Two columns are equal when they have the same kind and size, compare equal element by element, and
agree on which elements are missing. Equal columns have the same hash code; neither depends on the
spare slots.
-/

namespace Columnar

/-- The first difference between two columns of a kind. -/
inductive Difference (k : Kind) where
  | sizes (left right : Nat)
  | elements (index : Nat) (left : Word k) (leftMissing : Bool) (right : Word k)
      (rightMissing : Bool)

namespace Difference

variable {k : Kind}

def missingMark (missing : Bool) : String := if missing then " (missing)" else ""

def message : Difference k → String
  | sizes left right => s!"The sizes differ: {left} != {right}."
  | elements i left leftMissing right rightMissing =>
    s!"The values differ at [{i}]: {left.displayText}{missingMark leftMissing}" ++
      s!" != {right.displayText}{missingMark rightMissing}."

end Difference

namespace Column

variable {k : Kind}

/-- What tells two elements apart, if anything. -/
def elementDifference (c d : Column k) (i : Nat) (a b : Word k) : Option (Difference k) :=
  if (a.compare b).isEq && (!a.isSentinel || c.readsMissing a == d.readsMissing b) then none
  else some (.elements i a (c.readsMissing a) b (d.readsMissing b))

/-- The first difference among words of which the first ones have index `i`. -/
def differenceFrom (c d : Column k) (i : Nat) :
    List (Word k) → List (Word k) → Option (Difference k)
  | a :: as, b :: bs => (c.elementDifference d i a b).or (c.differenceFrom d (i + 1) as bs)
  | _, _ => none

/-- The first difference between two columns, if any. -/
def difference (c d : Column k) : Option (Difference k) :=
  if c.size ≠ d.size then some (.sizes c.size d.size)
  else c.differenceFrom d 0 c.words d.words

/-- Polynomial hash of the elements. -/
def hashCode (c : Column k) : Word.HashCode :=
  c.words.foldl (fun acc w => Word.hashStep acc w.hashTerm) 0

end Column

namespace AnyColumn

/-- Equality of columns of any kinds. -/
def sameAs (a b : AnyColumn) : Bool :=
  match b.as? a.kind with
  | some same => (a.column.difference same).isNone
  | none => false

/-- A description of the first difference between two columns of any kinds. -/
def differenceMessage (a b : AnyColumn) : Option String :=
  match b.as? a.kind with
  | some same =>
    (a.column.difference same).map fun d =>
      s!"{a.kind.name} arrays are not equal: {d.message}"
  | none => some s!"The element kinds differ: {a.kind.name} != {b.kind.name}."

end AnyColumn

end Columnar

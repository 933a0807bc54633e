import Columnar.Column.View
import Columnar.Text.Lowercase

/-!
# Order among elements

Elements of one kind compare by the order of the kind. Elements of different kinds compare as text
when either kind is text, as doubles when either is floating, and as integers otherwise. A missing
element follows every other one.

A column is ascending when no element is greater than the next and only the last one may be
missing; in a descending column only the first one may be missing.
-/

namespace Columnar

namespace Word

/-- Order of integers, with nothing before every integer. -/
def compareInt? : Option Int → Option Int → Ordering
  | none, none => .eq
  | none, some _ => .lt
  | some _, none => .gt
  | some a, some b => Ord.compare a b

/-- Order of two values that are not missing, in the currency that suits both kinds. -/
def crossCompare {k l : Kind} (w : Word k) (v : Word l) : Ordering :=
  if k.isText || l.isText then Ord.compare w.valueText v.valueText
  else if k.isFloating || l.isFloating then Ord.compare w.toDouble.rank v.toDouble.rank
  else compareInt? w.toInt v.toInt

end Word

namespace Column

variable {k : Kind}

/-- Order of two elements by whether they are missing, and by `present` if neither is. -/
def orderPresent (left right : Bool) (present : Ordering) : Ordering :=
  match left, right with
  | true, true => .eq
  | true, false => .gt
  | false, true => .lt
  | false, false => present

/-- Order of two words that are not missing. -/
def comparePresent {l : Kind} (w : Word k) (v : Word l) : Ordering :=
  if h : l = k then w.compare (h ▸ v) else w.crossCompare v

/-- Compares an element of this column with one of another column. -/
def compareAt (c : Column k) (i : Nat) (other : AnyColumn) (j : Nat) :
    Except ColumnError Ordering := do
  let w ← c.wordAt i
  let v ← other.column.wordAt j
  return orderPresent (c.readsMissing w) (other.column.readsMissing v) (comparePresent w v)

/-- Compares as `compareAt` does, but takes no notice of case where either column is text. -/
def compareAtIgnoringCase (c : Column k) (i : Nat) (other : AnyColumn) (j : Nat) :
    Except ColumnError Ordering :=
  if !k.isText && !other.kind.isText then c.compareAt i other j else do
  let w ← c.wordAt i
  let v ← other.column.wordAt j
  return orderPresent (c.readsMissing w) (other.column.readsMissing v)
    (Ord.compare (Text.lowercase w.valueText) (Text.lowercase v.valueText))

end Column

/-! ## Checks -/

inductive SortDirection where
  | ascending
  | descending
  deriving DecidableEq, Repr

namespace SortDirection

def name : SortDirection → String
  | ascending => "ascending"
  | descending => "descending"

end SortDirection

/-- The first place at which a column is not in order. -/
inductive OrderViolation (k : Kind) where
  /-- A missing element where none may be. -/
  | missing (direction : SortDirection) (index : Nat)
  /-- An element and its successor in the wrong order. -/
  | reversed (direction : SortDirection) (index : Nat) (left right : Word k)

namespace OrderViolation

variable {k : Kind}

def direction : OrderViolation k → SortDirection
  | missing direction _ => direction
  | reversed direction _ _ _ => direction

def index : OrderViolation k → Nat
  | missing _ index => index
  | reversed _ index _ _ => index

def detail : OrderViolation k → String
  | missing _ i => s!"[{i}] is a missing value."
  | reversed direction i left right =>
    let relation := match direction with
      | .ascending => ">"
      | .descending => "<"
    s!"[{i}]={left.displayText} {relation} [{i + 1}]={right.displayText}."

def message (v : OrderViolation k) : String :=
  s!"{k.name} array isn't sorted in {v.direction.name} order: {v.detail}"

end OrderViolation

namespace Column

variable {k : Kind}

/-- What is wrong with an element and its successor, if anything. -/
def pairViolation (c : Column k) (direction : SortDirection) (i : Nat) (a b : Word k) :
    Option (OrderViolation k) :=
  match direction with
  | .ascending =>
    if c.readsMissing a then some (.missing direction i)
    else if (a.compare b).isGT then some (.reversed direction i a b)
    else none
  | .descending =>
    if c.readsMissing b then some (.missing direction (i + 1))
    else if (a.compare b).isLT then some (.reversed direction i a b)
    else none

/-- The first violation among words of which the first one has index `i`. -/
def violationFrom (c : Column k) (direction : SortDirection) (i : Nat) :
    List (Word k) → Option (OrderViolation k)
  | a :: b :: rest =>
    (c.pairViolation direction i a b).or (c.violationFrom direction (i + 1) (b :: rest))
  | _ => none

/-- The first place that breaks the order, if any. -/
def violation (c : Column k) (direction : SortDirection) : Option (OrderViolation k) :=
  c.violationFrom direction 0 c.words

/-- Index of the first element that compares equal to its successor. -/
def firstTie (c : Column k) : Option Nat :=
  (c.words.zip (c.words.drop 1)).findIdx? fun (a, b) => (a.compare b).isEq

/-! ## Extremes -/

/-- The number of elements that are not missing, and the last indices of the smallest and the
largest of them. -/
structure CountMinMax where
  count : Nat
  minIndex : Option Nat
  maxIndex : Option Nat
  deriving DecidableEq, Repr

/-- An element with its index. -/
abbrev Indexed (k : Kind) := Word k × Nat

/-- The better of an extreme so far and a later element, which also wins a tie. -/
def laterExtreme (worse : Ordering) (best : Option (Indexed k)) (x : Indexed k) :
    Option (Indexed k) :=
  match best with
  | none => some x
  | some b => if x.1.compare b.1 = worse then some b else some x

/-- The indexed elements that are not missing. -/
def present (c : Column k) : List (Indexed k) :=
  c.words.zipIdx.filter fun x => !c.readsMissing x.1

def countMinMax (c : Column k) : CountMinMax :=
  { count := c.present.length
    minIndex := (c.present.foldl (laterExtreme .gt) none).map (·.2)
    maxIndex := (c.present.foldl (laterExtreme .lt) none).map (·.2) }

end Column

end Columnar

import Columnar.Column.View

/-!
# Columns as text

Lists of written elements: a display that shows stored values, JSON literals with null for missing
elements, and NCCSV attribute literals. A column can also be written out for inspection, with its
size, capacity and flag. Where JSON is written, `quote` makes a string literal of a text.
-/

namespace Columnar.Column

variable {k : Kind}

/-- The elements as they are displayed, missing or not. -/
def display (c : Column k) : String := ", ".intercalate (c.words.map Word.displayText)

def jsonOf (c : Column k) (quote : List Char → List Char) (w : Word k) : String :=
  if c.readsMissing w then "null" else w.jsonText quote

def nccsvOf (c : Column k) (w : Word k) : String :=
  if c.readsMissing w then "" else w.nccsvText

/-- JSON literal of an element. -/
def jsonAt (c : Column k) (quote : List Char → List Char) (i : Nat) : Except ColumnError String :=
  return c.jsonOf quote (← c.wordAt i)

/-- Text of an element in the data section of an NCCSV document. -/
def nccsvAt (c : Column k) (i : Nat) : Except ColumnError String :=
  return c.nccsvOf (← c.wordAt i)

/-- The elements as JSON literals. -/
def jsonList (c : Column k) (quote : List Char → List Char) : String :=
  ", ".intercalate (c.words.map (c.jsonOf quote))

/-- The elements as an NCCSV attribute list. -/
def nccsvList (c : Column k) : String := ",".intercalate (c.words.map Word.nccsvLiteral)

/-- The column as it is written out for inspection. -/
def inspect (c : Column k) : String :=
  let elements := ", ".intercalate (c.words.map Word.inspectText)
  k.title ++ "(TypedArray \x7b kind: " ++ k.title ++
    s!", size: {c.size}, capacity: {c.capacity}, max_is_missing: {c.flag}, words: [{elements}]" ++
    " \x7d)"

end Columnar.Column

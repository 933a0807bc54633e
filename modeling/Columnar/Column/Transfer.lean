import Columnar.Column.Ingest
import Columnar.Kind.Promotion

/-!
# Copies between columns

Elements of one column enter another one, of the same kind or of any other. A missing element stays
missing in the target, and a value that the target cannot hold becomes missing. A raw copy takes
the stored values as they are and leaves the flag of the target alone.

The elements of a copy are all converted before the first one is stored.
-/

namespace Columnar

namespace Word

/-- The word of kind `target` for a word that does not read as missing, whose text is `text`. -/
def cross {k : Kind} (target : Kind) (w : Word k) (text : String) : Option (Word target) :=
  if h : k = target then some (h ▸ w) else
  match k.route target with
  | .text => ofText target text
  | .floating => ofDouble target w.toDouble
  | _ => w.toInt.bind (ofInt target)

/-- The word of kind `target` for a missing element of kind `k`, if it has one of its own. -/
def crossMissing (k target : Kind) : Option (Word target) :=
  if k.route target = .text then ofText target "" else none

end Word

namespace Column

variable {k : Kind}

/-- The word of kind `target` for a word of this column. -/
def convertWord (c : Column k) (target : Kind) (w : Word k) : Option (Word target) :=
  if c.readsMissing w then Word.crossMissing k target else w.cross target w.valueText

/-- The word of kind `target` for a stored word, whatever the flag says. -/
def convertRawWord (target : Kind) (w : Word k) : Option (Word target) := w.cross target w.text

/-- The elements of `[start, start + count)`. -/
def range (c : Column k) (start count : Nat) : Except ColumnError (List (Word k)) :=
  if start + count ≤ c.size then .ok ((c.words.drop start).take count)
  else .error (.invalidArgument (.sourceRange start count c.size))

/-- Adds the elements of `[start, start + count)` of another column. -/
def addFrom (env : Environment) (source : AnyColumn) (start count : Nat) : Edit k Unit := do
  let words ← source.column.range start count
  let converted := words.map (source.column.convertWord k)
  reserve env converted.length
  converted.forM fun w => do addWord env (← settle w)

/-- Adds all elements of another column. A column of the same kind is copied word for word and
passes on its flag. -/
def append (env : Environment) (source : AnyColumn) : Edit k Unit :=
  match source.as? k with
  | some same => do
    addWords env same.words
    modify (·.withFlag same.flag)
  | none => addFrom env source 0 source.column.size

/-- Adds all stored values of another column. -/
def appendRaw (env : Environment) (source : AnyColumn) : Edit k Unit := do
  let words ← source.column.range 0 source.column.size
  addWords env (words.map fun w => (convertRawWord k w).getD (Word.sentinel k))

/-- Stores the element at `j` of another column at `i`. -/
def setFrom (i : Nat) (source : AnyColumn) (j : Nat) : Edit k Unit := do
  let _ ← (← get).wordAt i
  let w ← source.column.wordAt j
  setConverted i (source.column.convertWord k w)

/-- A column of kind `k` with the elements of any column. -/
def ofAny (env : Environment) (k : Kind) (source : AnyColumn) : Except ColumnError (Column k) := do
  build (← withCapacity env k source.column.size) (append env source)

end Column

namespace AnyColumn

/-- The column converted to a kind; of the same kind it is a plain copy. -/
def convertTo (env : Environment) (a : AnyColumn) (k : Kind) : Except ColumnError AnyColumn :=
  if k = a.kind then .ok a else return ⟨← Column.ofAny env k a⟩

/-- Unsigned words taken as signed ones of the same width, in a new column; columns of other kinds
are copied. -/
def makeSigned (a : AnyColumn) : Except ColumnError AnyColumn :=
  match a with
  | { kind := .unsigned w, column := c } => do
    let signed ← Column.ofWords (k := .signed w) c.words
    return { column := signed }
  | a => .ok a

end AnyColumn

end Columnar

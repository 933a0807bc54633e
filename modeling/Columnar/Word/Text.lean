import Columnar.Text.Escape
import Columnar.Text.Inspect
import Columnar.Word.Convert

/-!
# Written forms of words

Each text format has its own form for a word. Numbers are written alike everywhere, apart from the
suffix of NCCSV literals; code units and text are escaped and quoted in the manner of the format.
An infinity has no exchange form: its value text is empty, and in JSON it is null. JSON literals of
text are those of a library, given as `quote`, put into ASCII.
-/

namespace Columnar.Word

/-- Applies a function on characters to a text. -/
def mapChars (f : List Char → List Char) (s : String) : String := String.ofList (f s.toList)

/-- Text of a value that is not missing, for exchange with other kinds. -/
def valueText : {k : Kind} → Word k → String
  | .floating p, x => if Binary.isFinite x then text (k := .floating p) x else ""
  | _, x => text x

/-- Text in a delimited display, the sentinel included. -/
def displayText : {k : Kind} → Word k → String
  | .char, x => mapChars Text.display (unitText x)
  | _, x => text x

/-- JSON literal of a value that is not missing. -/
def jsonText (quote : List Char → List Char) : {k : Kind} → Word k → String
  | .floating p, x => if Binary.isFinite x then text (k := .floating p) x else "null"
  | .char, x => mapChars (Text.jsonQuote quote) (unitText x)
  | .string, x => mapChars (Text.jsonQuote quote) x
  | _, x => text x

/-- Text of a value that is not missing in the data section of an NCCSV document. -/
def nccsvText : {k : Kind} → Word k → String
  | .char, x => mapChars Text.nccsvQuote (unitText x)
  | .string, x => mapChars Text.nccsvQuote x
  | _, x => valueText x

/-- NCCSV attribute literal, the sentinel included. -/
def nccsvLiteral : {k : Kind} → Word k → String
  | .char, x => mapChars Text.nccsvCharLiteral (unitText x)
  | .string, x => mapChars Text.nccsvQuote x
  | k, x => text x ++ k.literalSuffix

/-- The stored word as it is shown for inspection: integers as signed patterns, code units as
numbers, text in quotes. -/
def inspectText : {k : Kind} → Word k → String
  | .signed _, x => toString (BitVec.toInt x)
  | .unsigned _, x => toString (BitVec.toInt x)
  | .floating _, x =>
    if Binary.isInfinite x then (if Binary.isNegative x then "-inf" else "inf")
    else Binary.text x
  | .char, x => toString (BitVec.toNat x)
  | .string, x => Text.inspect x

end Columnar.Word

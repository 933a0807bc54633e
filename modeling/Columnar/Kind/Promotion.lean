import Columnar.Kind

/-!
# Promotion between kinds

`Kind.needed a b` is the kind that holds the values of both `a` and `b`. Where no integer kind
is wide enough for both, doubles take over, and code units join with anything else as text.

`Kind.route` says through which currency a value travels when it changes kind.
-/

namespace Columnar.Kind

/-- Promotion table over `Kind.all`, one row for each first kind. -/
def promotionTable : List (List Kind) :=
  [ [byte, short, short, int, int, long, long, double, float, double, string, string],
    [short, ubyte, short, ushort, int, uint, long, ulong, float, double, string, string],
    [short, short, short, int, int, long, long, double, float, double, string, string],
    [int, ushort, int, ushort, int, uint, long, ulong, float, double, string, string],
    [int, int, int, int, int, long, long, double, double, double, string, string],
    [long, uint, long, uint, long, uint, long, ulong, double, double, string, string],
    [long, long, long, long, long, long, long, double, double, double, string, string],
    [double, ulong, double, ulong, double, ulong, double, ulong, double, double, string, string],
    [float, float, float, float, double, double, double, double, float, double, string, string],
    [double, double, double, double, double, double, double, double, double, double, string,
      string],
    [string, string, string, string, string, string, string, string, string, string, char, string],
    [string, string, string, string, string, string, string, string, string, string, string,
      string] ]

/-- The kind needed to hold values of both `a` and `b`. -/
def needed (a b : Kind) : Kind :=
  ((promotionTable[a.index]?).bind (·[b.index]?)).getD string

end Kind

/-- The currency in which a value crosses from one kind to another. -/
inductive Route where
  /-- Same kind: words are copied. -/
  | identity
  /-- Through an integer: integer kinds and code units. -/
  | integer
  /-- Through a double: a floating kind on either side. -/
  | floating
  /-- Through text: text on either side. -/
  | text
  deriving DecidableEq, Repr

namespace Route

def name : Route → String
  | identity => "Identity"
  | integer => "Integer"
  | floating => "Float"
  | text => "Text"

end Route

namespace Kind

/-- How values of kind `source` become values of kind `target`. -/
def route (source target : Kind) : Route :=
  if source = target then .identity
  else if source = string ∨ target = string then .text
  else if source.isFloating ∨ target.isFloating then .floating
  else .integer

end Columnar.Kind

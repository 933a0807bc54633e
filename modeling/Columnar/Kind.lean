/-!
# Element kinds

A column holds elements of one kind out of twelve: four widths of signed and of unsigned
integers, two floating formats, UTF-16 code units, and text. The kinds fall into five families,
and every rule of the library that depends on the kind is stated once per family.

`Kind.all` fixes the order in which tables over the kinds are written.
-/

namespace Columnar

-- Powers of numbers are those of the core library, also where a larger library has its own.
attribute [scoped instance (2000)] instPowNat
attribute [default_instance 20000] instPowNat

/-- Width of an integer kind. -/
inductive IntWidth where
  | w8
  | w16
  | w32
  | w64
  deriving DecidableEq, Repr, Inhabited

namespace IntWidth

def bytes : IntWidth → Nat
  | w8 => 1
  | w16 => 2
  | w32 => 4
  | w64 => 8

def bits : IntWidth → Nat
  | w8 => 8
  | w16 => 16
  | w32 => 32
  | w64 => 64

theorem bits_eq (w : IntWidth) : w.bits = 8 * w.bytes := by cases w <;> rfl

theorem bits_pos (w : IntWidth) : 0 < w.bits := by cases w <;> decide

/-- Least integer with a two's complement pattern of this width. -/
def minSigned (w : IntWidth) : Int := -(2 ^ (w.bits - 1))

def maxSigned (w : IntWidth) : Int := 2 ^ (w.bits - 1) - 1

def maxUnsigned (w : IntWidth) : Int := 2 ^ w.bits - 1

end IntWidth

/-- Interchange format of a floating kind: IEEE 754 binary32 or binary64. -/
inductive Precision where
  | single
  | double
  deriving DecidableEq, Repr, Inhabited

namespace Precision

def bytes : Precision → Nat
  | single => 4
  | double => 8

def bits : Precision → Nat
  | single => 32
  | double => 64

/-- Number of stored fraction bits. -/
def fracBits : Precision → Nat
  | single => 23
  | double => 52

def expBits : Precision → Nat
  | single => 8
  | double => 11

/-- The least positive value of the format is `2 ^ (-unitExp)`; every finite value is an
integer multiple of it. -/
def unitExp : Precision → Nat
  | single => 149
  | double => 1074

theorem bits_eq (p : Precision) : p.bits = 8 * p.bytes := by cases p <;> rfl

end Precision

/-- The kind of a column's elements, by family. -/
inductive Kind where
  | signed (w : IntWidth)
  | unsigned (w : IntWidth)
  | floating (p : Precision)
  | char
  | string
  deriving DecidableEq, Repr, Inhabited

namespace Kind

@[match_pattern] abbrev byte : Kind := .signed .w8
@[match_pattern] abbrev ubyte : Kind := .unsigned .w8
@[match_pattern] abbrev short : Kind := .signed .w16
@[match_pattern] abbrev ushort : Kind := .unsigned .w16
@[match_pattern] abbrev int : Kind := .signed .w32
@[match_pattern] abbrev uint : Kind := .unsigned .w32
@[match_pattern] abbrev long : Kind := .signed .w64
@[match_pattern] abbrev ulong : Kind := .unsigned .w64
@[match_pattern] abbrev float : Kind := .floating .single
@[match_pattern] abbrev double : Kind := .floating .double

/-- Every kind, in table order. -/
def all : List Kind :=
  [byte, ubyte, short, ushort, int, uint, long, ulong, float, double, char, string]

theorem mem_all (k : Kind) : k ∈ all := by
  rcases k with ((_ | _ | _ | _) | (_ | _ | _ | _) | (_ | _) | _ | _) <;> decide

/-- Position of the kind in `Kind.all`. -/
def index (k : Kind) : Nat := all.idxOf k

/-- The name used in metadata and in error texts. -/
def name : Kind → String
  | byte => "byte"
  | ubyte => "ubyte"
  | short => "short"
  | ushort => "ushort"
  | int => "int"
  | uint => "uint"
  | long => "long"
  | ulong => "ulong"
  | float => "float"
  | double => "double"
  | char => "char"
  | string => "String"

/-- The name with which the kind appears in configuration documents. -/
def documentName : Kind → String
  | string => "string"
  | k => k.name

/-- The capitalised name used when a column is written out for inspection. -/
def title : Kind → String
  | byte => "Byte"
  | ubyte => "UByte"
  | short => "Short"
  | ushort => "UShort"
  | int => "Int"
  | uint => "UInt"
  | long => "Long"
  | ulong => "ULong"
  | float => "Float"
  | double => "Double"
  | char => "Char"
  | string => "String"

/-- Bytes per element as reported to callers. Text has no fixed width and reports 20. -/
def elementSize : Kind → Nat
  | signed w => w.bytes
  | unsigned w => w.bytes
  | floating p => p.bytes
  | char => 2
  | string => 20

/-- Bytes per word in the stream encoding, 0 for the variable-width text. -/
def streamWidth : Kind → Nat
  | signed w => w.bytes
  | unsigned w => w.bytes
  | floating p => p.bytes
  | char => 2
  | string => 0

/-- Bytes that one slot of a buffer takes: a text slot is a pointer, a length and a capacity. -/
def slotBytes : Kind → Nat
  | string => 24
  | k => k.streamWidth

/-- True of the integer kinds in the mathematical sense; a code unit is not one. -/
def isInteger : Kind → Bool
  | signed _ => true
  | unsigned _ => true
  | _ => false

def isUnsigned : Kind → Bool
  | unsigned _ => true
  | _ => false

def isFloating : Kind → Bool
  | floating _ => true
  | _ => false

/-- True of code units and of text. -/
def isText : Kind → Bool
  | char => true
  | string => true
  | _ => false

/-- True when the sentinel always reads as missing, so that the flag cannot be down. -/
def missingFixed (k : Kind) : Bool := !k.isInteger

/-- Suffix of a numeric literal in an NCCSV attribute list. -/
def literalSuffix : Kind → String
  | byte => "b"
  | ubyte => "ub"
  | short => "s"
  | ushort => "us"
  | int => "i"
  | uint => "ui"
  | long => "L"
  | ulong => "uL"
  | float => "f"
  | double => "d"
  | char => ""
  | string => ""

/-- The signed kind that shares the storage of an unsigned kind. -/
def signedCounterpart : Kind → Option Kind
  | unsigned w => some (signed w)
  | _ => none

end Kind

end Columnar

import Columnar.Kind
import Columnar.Text.Utf8

/-!
# Errors of column operations

An error names its cause; the wording of every cause is in `ColumnError.message` and the two
functions it calls. Values that a kind cannot hold are not errors: they are stored as the sentinel.
-/

namespace Columnar

/-- An argument that an operation does not take. -/
inductive ArgumentFault where
  | removeRangeReversed (kind : Kind) (start stop : Nat)
  | moveRangeReversed (kind : Kind) (first last : Nat)
  | moveRangeInside (kind : Kind) (destination first last : Nat)
  | rankLength (kind : Kind) (length size : Nat)
  | strideZero (kind : Kind)
  | sourceRange (start count size : Nat)
  | textTooLong (bytes : Nat)
  | vectorTooLong (kind : Kind) (size : Nat)
  | sortThreshold
  | initialCapacity
  | alreadyInstalled
  | described (text : String)
  deriving DecidableEq, Repr

namespace ArgumentFault

def message : ArgumentFault → String
  | removeRangeReversed kind start stop =>
    s!"{kind.name} array remove_range from {start} is greater than to {stop}"
  | moveRangeReversed kind first last =>
    s!"{kind.name} array move_range first {first} is greater than last {last}"
  | moveRangeInside kind destination first last =>
    s!"{kind.name} array move_range destination {destination} is inside [{first}, {last})"
  | rankLength kind length size =>
    s!"{kind.name} array reorder: rank length {length} != size {size}"
  | strideZero kind => s!"{kind.name} array subset stride must be at least 1"
  | sourceRange start count size =>
    s!"range start {start} count {count} exceeds source size {size}"
  | textTooLong bytes => s!"string of {bytes} bytes is too long for the stream encoding"
  | vectorTooLong kind size =>
    s!"{kind.name} array of {size} elements is too large for a DAP vector"
  | sortThreshold => "parallel_sort_threshold must be >= 2"
  | initialCapacity => "initial_capacity must be <= 1048576"
  | alreadyInstalled => "array configuration is already installed"
  | described text => text

end ArgumentFault

/-- Encoded data that does not decode. -/
inductive DataFault where
  | truncated (what : String) (needed remaining : Nat)
  | countTooLarge (kind : Kind) (count : Nat)
  | vectorCountTooLarge (count : Nat)
  | notUtf8 (fault : Utf8.Fault)
  | negativeTextLength (length : Int)
  | negativeCount (count : Int)
  /-- A document that is not JSON or does not have the expected form. -/
  | document
  | described (text : String)
  deriving DecidableEq, Repr

namespace DataFault

def message : DataFault → String
  | truncated what needed remaining =>
    s!"unexpected end of data reading {what}: need {needed} bytes, {remaining} remaining"
  | countTooLarge kind count => s!"{kind.name} element count {count} is too large"
  | vectorCountTooLarge count => s!"DAP element count {count} is too large"
  | notUtf8 fault => "string is not UTF-8: " ++ fault.message
  | negativeTextLength length => s!"negative string length {length}"
  | negativeCount count => s!"negative DAP element count {count}"
  | document => "JSON error: "
  | described text => text

end DataFault

/-- Why an operation on a column failed. -/
inductive ColumnError where
  | indexOutOfBounds (kind : Kind) (index size : Nat)
  | insertOutOfBounds (kind : Kind) (index size : Nat)
  | invalidArgument (fault : ArgumentFault)
  | kindMismatch (expected actual : Kind)
  | capacityExceeded (kind : Kind) (requested maximum : Nat)
  | outOfMemory (kind : Kind) (bytes : Nat)
  /-- A number of elements beyond 64 bits. No caller is told of it: the program stops. -/
  | sizeOverflow (kind : Kind)
  | invalidData (fault : DataFault)
  | transfer (text : String)
  deriving DecidableEq, Repr

/-- Coarse grouping of errors. -/
inductive ErrorCategory where
  | bounds
  | argument
  | capacity
  | codec
  deriving DecidableEq, Repr

namespace ColumnError

def category : ColumnError → ErrorCategory
  | indexOutOfBounds .. => .bounds
  | insertOutOfBounds .. => .bounds
  | invalidArgument _ => .argument
  | kindMismatch .. => .argument
  | capacityExceeded .. => .capacity
  | outOfMemory .. => .capacity
  | sizeOverflow _ => .capacity
  | invalidData _ => .codec
  | transfer _ => .codec

def message : ColumnError → String
  | indexOutOfBounds kind index size =>
    s!"{kind.name} array index {index} is out of bounds (size = {size})"
  | insertOutOfBounds kind index size =>
    s!"{kind.name} array insert index {index} is out of bounds (size = {size})"
  | invalidArgument fault => "Invalid argument: " ++ fault.message
  | kindMismatch expected actual =>
    s!"Kind mismatch: expected {expected.name}, got {actual.name}"
  | capacityExceeded kind requested maximum =>
    s!"{kind.name} array capacity {requested} exceeds the maximum array size {maximum}"
  | outOfMemory kind bytes =>
    s!"Not enough memory to allocate {bytes} bytes for a {kind.name} array"
  | sizeOverflow _ => "attempt to add with overflow"
  | invalidData fault => "Invalid encoded data: " ++ fault.message
  | transfer text => "I/O error: " ++ text

end ColumnError

end Columnar

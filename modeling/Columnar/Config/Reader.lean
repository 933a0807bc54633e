import Columnar.Config
import Columnar.Json
import Columnar.Text.Lowercase
import Columnar.Text.WhiteSpace

/-!
# Configuration documents and settings

A configuration is read from a JSON object, where unknown members are passed over and absent ones
keep their defaults, or from a JSON array of the settings in order. What JSON value a document holds,
if any, is for a library to say, given as `parse`. Settings given as single texts keep their default
when the text is no count.

Kinds are named in two ways: by their name in any case, and in documents by their lower-case name.
-/

namespace Columnar

namespace Config

/-- Sets one setting, which no earlier member may have set. -/
def setMember (seen : List String) (name : String) (value : Json) (c : Config) :
    Option Config :=
  if name ∈ seen then none else
  if name = "initial_capacity" then
    value.toCount.map fun n => { c with initialCapacity := n }
  else if name = "parallel_sort_threshold" then
    value.toCount.map fun n => { c with parallelSortThreshold := n }
  else if name = "memory_limit_mb" then
    value.toCount.map fun n => { c with memoryLimitMb := n }
  else some c

def isSetting (name : String) : Bool :=
  name == "initial_capacity" || name == "parallel_sort_threshold" || name == "memory_limit_mb"

/-- Applies members in order; `seen` holds the settings made so far. -/
def setMembers (seen : List String) : List (List CodeUnit × Json) → Config → Option Config
  | [], c => some c
  | (units, value) :: rest, c => do
    let name ← Json.textOf units
    let c ← c.setMember seen name value
    setMembers (if isSetting name then name :: seen else seen) rest c

/-- The configuration that a JSON value describes. -/
def ofJson : Json → Option Config
  | .object members => setMembers [] members {}
  | .array [] => some {}
  | .array [a] => do return { initialCapacity := ← a.toCount }
  | .array [a, b] => do
    return { initialCapacity := ← a.toCount, parallelSortThreshold := ← b.toCount }
  | .array [a, b, c] => do
    return {
      initialCapacity := ← a.toCount
      parallelSortThreshold := ← b.toCount
      memoryLimitMb := ← c.toCount }
  | _ => none

/-- Reads a configuration document and checks the configuration. -/
def ofDocument (parse : String → Option Json) (s : String) : Except ColumnError Config :=
  match (parse s).bind ofJson with
  | none => .error (.invalidData .document)
  | some c =>
    match c.fault with
    | some fault => .error (.invalidArgument fault)
    | none => .ok c

/-- A count given as a text of digits, with an optional plus sign, that fits 64 bits. -/
def countOfText (s : String) : Option Nat :=
  let cs := s.toList
  let digits := if cs.head? = some '+' then cs.drop 1 else cs
  (Numeral.readNat 10 digits).filter (· < 2 ^ 64)

/-- The configuration given by single texts, one for each setting that is made. -/
def ofTexts (initialCapacity parallelSortThreshold memoryLimitMb : Option String) : Config :=
  let c : Config := {}
  { initialCapacity := (initialCapacity.bind countOfText).getD c.initialCapacity
    parallelSortThreshold := (parallelSortThreshold.bind countOfText).getD c.parallelSortThreshold
    memoryLimitMb := (memoryLimitMb.bind countOfText).getD c.memoryLimitMb }

end Config

namespace Kind

/-- The kind with the given name, in any case and between any white space. -/
def ofName (s : String) : Option Kind :=
  let name := Text.lowercase (String.ofList (Text.trim s.toList))
  all.find? fun k => Text.lowercase k.name == name

/-- The text of the failure to read a kind's name. -/
def unknownMessage (s : String) : String := "unknown element kind: " ++ s

/-- The kind as a JSON document. -/
def document (k : Kind) : String := "\"" ++ k.documentName ++ "\""

/-- The kind that a JSON value names: a text, or an object with that text as the name of its only
member, which is null. -/
def ofJson : Json → Option Kind
  | .string units => named units
  | .object [(units, .null)] => named units
  | _ => none
where
  named (units : List CodeUnit) : Option Kind :=
    (Json.textOf units).bind fun name => all.find? (·.documentName == name)

/-- Reads a document that names a kind. -/
def ofDocument (parse : String → Option Json) (s : String) : Except ColumnError Kind :=
  match (parse s).bind ofJson with
  | some k => .ok k
  | none => .error (.invalidData .document)

end Kind

end Columnar

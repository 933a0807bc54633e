import Columnar.Error

/-!
# Configuration

The settings that storage depends on: how large a column starts, from which size on it is sorted on
several processors, and how many bytes one buffer may take. A configuration is checked before it is
installed, and only the first one is.
-/

namespace Columnar

structure Config where
  /-- Capacity of a column made without a capacity. -/
  initialCapacity : Nat := 8
  /-- Columns of at least this many elements are sorted by the parallel strategy. -/
  parallelSortThreshold : Nat := 8192
  /-- Limit of one buffer in megabytes; 0 sets none. -/
  memoryLimitMb : Nat := 0
  deriving DecidableEq, Repr

namespace Config

/-- The first setting that is out of range, if any. -/
def fault (c : Config) : Option ArgumentFault :=
  if c.parallelSortThreshold < 2 then some .sortThreshold
  else if 1048576 < c.initialCapacity then some .initialCapacity
  else none

/-- The limit in bytes, a product of 64 bits: a limit of `2 ^ 44` megabytes or more wraps round (where
overflow is checked, the program stops instead). -/
def memoryLimitBytes (c : Config) : Option Nat :=
  if c.memoryLimitMb = 0 then none else some (c.memoryLimitMb * 1024 * 1024 % 2 ^ 64)

/-- A limit below `2 ^ 44` megabytes is meant as it is given. -/
theorem memoryLimitBytes_of_lt {c : Config} (limited : c.memoryLimitMb ≠ 0)
    (small : c.memoryLimitMb < 2 ^ 44) :
    c.memoryLimitBytes = some (c.memoryLimitMb * 1024 * 1024) := by
  rw [memoryLimitBytes, if_neg limited, Nat.mod_eq_of_lt (by omega)]

/-- Puts a configuration in force, unless it is out of range or another one is in force already. -/
def install (inForce : Option Config) (c : Config) : Except ColumnError Config :=
  match c.fault, inForce with
  | some fault, _ => .error (.invalidArgument fault)
  | none, some _ => .error (.invalidArgument .alreadyInstalled)
  | none, none => .ok c

/-- The configuration as a JSON document. -/
def document (c : Config) : String :=
  s!"\x7b\"initial_capacity\":{c.initialCapacity}," ++
    s!"\"parallel_sort_threshold\":{c.parallelSortThreshold}," ++
    s!"\"memory_limit_mb\":{c.memoryLimitMb}\x7d"

end Config

end Columnar

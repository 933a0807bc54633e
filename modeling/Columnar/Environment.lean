import Columnar.Config
import Columnar.Word.Sort

/-!
# What operations run with

Beside the configuration in force, operations on columns depend on two services that are not their
own: an allocator, which may refuse a buffer that the configuration allows, and the sorts that work
on several processors at once.
-/

namespace Columnar

structure Environment extends Config where
  /-- True if the allocator has so many bytes for a buffer. -/
  grants : Nat → Bool := fun _ => true
  /-- The sorts that work on several processors. -/
  parallelSort : Sorter := .sequential

namespace Environment

/-- The sorts of one of the two strategies. -/
def sorter (env : Environment) (parallel : Bool) : Sorter :=
  if parallel then env.parallelSort else .sequential

end Environment

end Columnar

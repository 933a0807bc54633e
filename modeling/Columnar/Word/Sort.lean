import Columnar.Word.Order

/-!
# Sorting words

Words are sorted by a library, in one of two ways: a sort that leaves elements in their order where
they compare equal, and one that may exchange them. The second is enough for integers, of which only
the same ones are equal. Unsigned words are sorted as signed patterns first; the patterns with the
top bit set then stand in front and are moved behind the others, which puts the values in order.
-/

namespace Columnar

/-- The sorts that a library offers. Both of them work in place, so that a list keeps its
elements. -/
structure Sorter where
  /-- Sorts by a comparison, and leaves elements that compare equal in their order. -/
  stable {α : Type} (cmp : α → α → Ordering) (l : List α) : List α
  /-- Sorts by a comparison, and may exchange elements that compare equal. -/
  unstable {α : Type} (cmp : α → α → Ordering) (l : List α) : List α
  stable_perm {α : Type} (cmp : α → α → Ordering) (l : List α) : (stable cmp l).Perm l
  unstable_perm {α : Type} (cmp : α → α → Ordering) (l : List α) : (unstable cmp l).Perm l

/-- The sorts that work on one processor. -/
def Sorter.sequential : Sorter where
  stable cmp l := l.mergeSort fun x y => (cmp x y).isLE
  unstable cmp l := l.mergeSort fun x y => (cmp x y).isLE
  stable_perm _ l := List.mergeSort_perm l _
  unstable_perm _ l := List.mergeSort_perm l _

namespace Word

/-- Moves the leading elements that satisfy `upper` behind the others. -/
def rotateLeading {α : Type} (upper : α → Bool) (l : List α) : List α :=
  l.dropWhile upper ++ l.takeWhile upper

/-- Sorts words in ascending order of their values. -/
def sortWords (sorter : Sorter) : {k : Kind} → List (Word k) → List (Word k)
  | .signed _, l => sorter.unstable compare l
  | .unsigned w, l =>
    rotateLeading (fun x : BitVec w.bits => x.msb) (sorter.unstable (compareOn BitVec.toInt) l)
  | .floating _, l => sorter.stable compare l
  | .char, l => sorter.stable compare l
  | .string, l => sorter.stable compare l

end Word

end Columnar

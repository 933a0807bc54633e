import Columnar.Word.Sort

/-!
# What sorting keeps

A library's sorts rearrange the words that they are given and nothing else, and so does moving the
leading ones behind the others.
-/

namespace Columnar.Word

theorem rotateLeading_perm {α : Type} (upper : α → Bool) (l : List α) :
    (rotateLeading upper l).Perm l := by
  have halves : l.takeWhile upper ++ l.dropWhile upper = l := List.takeWhile_append_dropWhile
  simpa only [halves, rotateLeading] using
    (List.perm_append_comm : (l.dropWhile upper ++ l.takeWhile upper).Perm _)

variable {k : Kind}

/-- Sorting words permutes them. -/
theorem sortWords_perm (sorter : Sorter) (l : List (Word k)) : (sortWords sorter l).Perm l := by
  cases k with
  | signed w => exact sorter.unstable_perm _ l
  | unsigned w => exact (rotateLeading_perm _ _).trans (sorter.unstable_perm _ l)
  | floating | char | string => exact sorter.stable_perm _ l

theorem length_sortWords (sorter : Sorter) (l : List (Word k)) :
    (sortWords sorter l).length = l.length :=
  (sortWords_perm sorter l).length_eq

end Columnar.Word

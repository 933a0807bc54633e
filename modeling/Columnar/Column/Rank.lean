import Columnar.Column.Growth
import Columnar.Word.Sort

/-!
# Ranking

A column's elements are ranked by their place among its sorted distinct values. A column that is
strictly ascending already is its own column of distinct values. For any other one the first word of
every key is kept and sorted, the place of every key is noted in a table, and a second pass looks
the elements up there.
-/

namespace Columnar

/-- One rank for each element, the sorted distinct values, and whether those are the ranked column
itself. -/
structure Ranking (k : Kind) where
  ranks : List Nat
  distinct : Column k
  isOwn : Bool

namespace Column

variable {k : Kind}

def strictlyAscending (l : List (Word k)) : Bool :=
  (l.zip (l.drop 1)).all fun (a, b) => (a.compare b).isLT

/-- The first word of each key, in order of appearance; `seen` holds the keys met before. -/
def firstOfKeys (seen : List (Word k)) : List (Word k) → List (Word k)
  | [] => []
  | w :: rest =>
    if w.key ∈ seen then firstOfKeys seen rest else w :: firstOfKeys (w.key :: seen) rest

/-- The place of every key among distinct words. -/
def rankTable (distinct : List (Word k)) : List (Word k × Nat) :=
  distinct.zipIdx.map fun (w, i) => (w.key, i)

/-- The place of a word's key in a table, 0 for a key that is not in it. -/
def rankIn (table : List (Word k × Nat)) (w : Word k) : Nat := (table.lookup w.key).getD 0

/-- The rank of a word that follows a ranked one. If the two compare equal, the rank is taken over
without looking it up. -/
def rankAfter (table : List (Word k × Nat)) (previous : Option (Word k × Nat)) (w : Word k) : Nat :=
  match previous with
  | some (last, rank) => if (last.compare w).isEq then rank else rankIn table w
  | none => rankIn table w

/-- The ranks of words one after the other; `done` holds the ranks before theirs, latest first. -/
def ranksAfter (table : List (Word k × Nat)) (previous : Option (Word k × Nat)) (done : List Nat) :
    List (Word k) → List Nat
  | [] => done.reverse
  | w :: rest =>
    let rank := rankAfter table previous w
    ranksAfter table (some (w, rank)) (rank :: done) rest

/-- Ranks every element by the place of its key among the sorted distinct values. -/
def rankingByKey (c : Column k) : Ranking k :=
  let distinct := Word.sortWords .sequential (firstOfKeys [] c.words)
  { ranks := ranksAfter (rankTable distinct) none [] c.words
    distinct := (ofSlots distinct.toArray distinct.length).withFlag c.flag
    isOwn := false }

/-- Ranks every element by its place among the sorted distinct values. -/
def ranking (c : Column k) : Ranking k :=
  if strictlyAscending c.words then ⟨List.range c.words.length, c, true⟩ else c.rankingByKey

end Column

end Columnar

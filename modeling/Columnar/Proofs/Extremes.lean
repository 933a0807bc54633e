import Mathlib.Data.List.Induction
import Mathlib.Order.Bounds.Defs
import Columnar.Column.Order
import Columnar.Proofs.Comparing

/-!
# Extremes

The smallest and the largest element are found in one pass over the elements that are not missing.
Each of these takes the place of the extreme so far unless it is worse, so that of equal elements
the last one is left. After every step of the pass the extreme so far is that of the elements seen
so far, in their order.

## Main definitions

* `Column.IsLastExtreme`: an element of a list that is extreme in it, and the last such one.
* `Column.IsExtremeAt`: the element at an index is extreme among those that are not missing.
-/

namespace Columnar

open Std

/-- To be no greater is transitive, and so is to be no less. -/
theorem Word.compare_ne_trans {k : Kind} {worse : Ordering} (strict : worse ≠ .eq)
    {x y z : Word k} (first : x.compare y ≠ worse) (second : y.compare z ≠ worse) :
    x.compare z ≠ worse := by
  cases worse with
  | eq => exact absurd rfl strict
  | lt =>
    apply Ordering.isGE_iff_ne_lt.mp
    exact TransCmp.isGE_trans (Ordering.isGE_iff_ne_lt.mpr first)
      (Ordering.isGE_iff_ne_lt.mpr second)
  | gt =>
    apply Ordering.isLE_iff_ne_gt.mp
    exact TransCmp.isLE_trans (Ordering.isLE_iff_ne_gt.mpr first)
      (Ordering.isLE_iff_ne_gt.mpr second)

theorem Word.compare_ne_of_eq {k : Kind} {worse : Ordering} (strict : worse ≠ .eq) {x y : Word k}
    (loses : x.compare y = worse) : y.compare x ≠ worse := by
  have swapped : y.compare x = (x.compare y).swap := OrientedCmp.eq_swap
  rw [swapped, loses]
  cases worse with
  | eq => exact absurd rfl strict
  | lt | gt => decide

namespace Column

variable {k : Kind} {c : Column k} {worse : Ordering} {l : List (Indexed k)} {b x : Indexed k}
  {i : Nat}

/-! ## The pass over indexed elements -/

/-- No element of the list makes `b` the worse one, and of the elements of which that is true, `b`
has the greatest index. -/
structure IsLastExtreme (worse : Ordering) (l : List (Indexed k)) (b : Indexed k) : Prop where
  mem : b ∈ l
  extreme : ∀ y ∈ l, b.1.compare y.1 ≠ worse
  last : ∀ x ∈ l, (∀ y ∈ l, x.1.compare y.1 ≠ worse) → x.2 ≤ b.2

theorem isLastExtreme_singleton (strict : worse ≠ .eq) (x : Indexed k) :
    IsLastExtreme worse [x] x := by
  have self : x.1.compare x.1 = .eq := ReflCmp.compare_self
  refine ⟨by simp, ?_, ?_⟩
  · simp [self, strict.symm]
  · simp

/-- A later element is compared with the extreme so far, and one of the two is the extreme then. -/
theorem IsLastExtreme.concat (strict : worse ≠ .eq) (h : IsLastExtreme worse l b)
    (later : ∀ y ∈ l, y.2 < x.2) :
    ∃ b', laterExtreme worse (some b) x = some b' ∧ IsLastExtreme worse (l ++ [x]) b' := by
  by_cases loses : x.1.compare b.1 = worse
  · refine ⟨b, if_pos loses, by simp [h.mem], ?_, ?_⟩
    · have wins : b.1.compare x.1 ≠ worse := Word.compare_ne_of_eq strict loses
      simpa [or_imp, forall_and, wins] using h.extreme
    · intro y inside extreme
      rcases List.mem_append.mp inside with before | new
      · exact h.last y before fun z held => extreme z (List.mem_append_left _ held)
      · obtain rfl := List.mem_singleton.mp new
        exact absurd loses (extreme b (List.mem_append_left _ h.mem))
  · refine ⟨x, if_neg loses, by simp, ?_, ?_⟩
    · intro y inside
      rcases List.mem_append.mp inside with before | new
      · exact Word.compare_ne_trans strict loses (h.extreme y before)
      · exact (isLastExtreme_singleton strict x).extreme y new
    · intro y inside _
      rcases List.mem_append.mp inside with before | new
      · exact Nat.le_of_lt (later y before)
      · exact Nat.le_of_eq (congrArg Prod.snd (List.mem_singleton.mp new))

/-- The pass over elements in the order of their indices ends with the last extreme. -/
theorem exists_foldl_laterExtreme (strict : worse ≠ .eq) (some_element : l ≠ [])
    (ordered : l.Pairwise fun x y => x.2 < y.2) :
    ∃ b, l.foldl (laterExtreme worse) none = some b ∧ IsLastExtreme worse l b := by
  induction l using List.reverseRecOn with
  | nil => exact absurd rfl some_element
  | append_singleton l x ih =>
    rw [List.foldl_append, List.foldl_cons, List.foldl_nil]
    obtain ⟨before, -, later⟩ := List.pairwise_append.mp ordered
    by_cases first : l = []
    · subst first
      exact ⟨x, rfl, isLastExtreme_singleton strict x⟩
    · obtain ⟨b, found, h⟩ := ih first before
      rw [found]
      exact h.concat strict fun y held => later y held x (by simp)

/-! ## The elements that are not missing -/

theorem mem_present_iff :
    x ∈ c.present ↔ c.words[x.2]? = some x.1 ∧ c.readsMissing x.1 = false := by
  simp [present, List.mem_zipIdx_iff_getElem?]

theorem pairwise_present : c.present.Pairwise fun x y => x.2 < y.2 := by
  have places : (c.words.zipIdx.map (·.2)).Pairwise (· < ·) := by
    rw [List.zipIdx_map_snd]
    exact List.pairwise_lt_range'
  exact (List.pairwise_map.mp places).filter _

theorem length_present : c.present.length = c.words.countP fun w => !c.readsMissing w := by
  have words : c.words.zipIdx.map (·.1) = c.words := List.zipIdx_map_fst 0 c.words
  calc c.present.length
      = c.words.zipIdx.countP ((fun w => !c.readsMissing w) ∘ (·.1)) :=
        List.countP_eq_length_filter.symm
    _ = (c.words.zipIdx.map (·.1)).countP fun w => !c.readsMissing w := List.countP_map.symm
    _ = c.words.countP fun w => !c.readsMissing w := by rw [words]

/-! ## Indices of extremes -/

/-- The element at an index is not missing, and none that is not missing makes it the worse one:
with `.gt` it is one of the smallest of these elements, with `.lt` one of the largest. -/
def IsExtremeAt (c : Column k) (worse : Ordering) (i : Nat) : Prop :=
  ∃ w, c.words[i]? = some w ∧ c.readsMissing w = false ∧
    ∀ v ∈ c.words, c.readsMissing v = false → w.compare v ≠ worse

theorem isExtremeAt_iff :
    c.IsExtremeAt worse i ↔
      ∃ x ∈ c.present, x.2 = i ∧ ∀ y ∈ c.present, x.1.compare y.1 ≠ worse := by
  have elements (w : Word k) :
      (∀ v ∈ c.words, c.readsMissing v = false → w.compare v ≠ worse) ↔
        ∀ y ∈ c.present, w.compare y.1 ≠ worse := by
    constructor
    · intro extreme y held
      obtain ⟨here, there⟩ := mem_present_iff.mp held
      exact extreme y.1 (List.mem_of_getElem? here) there
    · intro extreme v inside there
      obtain ⟨j, here⟩ := List.mem_iff_getElem?.mp inside
      exact extreme (v, j) (mem_present_iff.mpr ⟨here, there⟩)
  simp only [IsExtremeAt, elements, mem_present_iff]
  constructor
  · rintro ⟨w, here, there, extreme⟩
    exact ⟨(w, i), ⟨here, there⟩, rfl, extreme⟩
  · rintro ⟨x, ⟨here, there⟩, rfl, extreme⟩
    exact ⟨x.1, here, there, extreme⟩

/-- The last extreme of the elements that are not missing has the greatest index at which there is
an extreme. -/
theorem IsLastExtreme.isGreatest (h : IsLastExtreme worse c.present b) :
    IsGreatest {i | c.IsExtremeAt worse i} b.2 := by
  refine ⟨isExtremeAt_iff.mpr ⟨b, h.mem, rfl, h.extreme⟩, ?_⟩
  rintro i extreme
  obtain ⟨x, held, rfl, others⟩ := isExtremeAt_iff.mp extreme
  exact h.last x held others

/-- The index that the pass ends with, where there are elements to pass over. -/
theorem exists_isGreatest (worse : Ordering) (strict : worse ≠ .eq)
    (some_element : c.present ≠ []) :
    ∃ i, (c.present.foldl (laterExtreme worse) none).map (·.2) = some i ∧
      IsGreatest {i | c.IsExtremeAt worse i} i := by
  obtain ⟨b, found, h⟩ := exists_foldl_laterExtreme strict some_element pairwise_present
  exact ⟨b.2, congrArg _ found, h.isGreatest⟩

/-- Count and extremes of a column. The elements that are not missing are counted. Where there are
none, there are no indices; otherwise the indices are the greatest at which one of the smallest and
one of the largest of these elements stands. -/
theorem finds_extremes (c : Column k) :
    c.countMinMax.count = c.words.countP (fun w => !c.readsMissing w) ∧
    (c.countMinMax.count = 0 → c.countMinMax.minIndex = none ∧ c.countMinMax.maxIndex = none) ∧
    (c.countMinMax.count ≠ 0 → ∃ smallest largest,
      c.countMinMax.minIndex = some smallest ∧ IsGreatest {i | c.IsExtremeAt .gt i} smallest ∧
      c.countMinMax.maxIndex = some largest ∧ IsGreatest {i | c.IsExtremeAt .lt i} largest) := by
  refine ⟨length_present, fun none_left => ?_, fun some_left => ?_⟩
  · have empty : c.present = [] := List.length_eq_zero_iff.mp none_left
    simp [countMinMax, empty]
  · have some_element : c.present ≠ [] := fun empty => some_left (congrArg List.length empty)
    obtain ⟨smallest, first, lower⟩ := exists_isGreatest .gt (by decide) some_element
    obtain ⟨largest, second, upper⟩ := exists_isGreatest .lt (by decide) some_element
    exact ⟨smallest, largest, first, lower, second, upper⟩

/-- The greatest byte is an element like others while the flag is down. -/
example (up : Bool) :
    (⟨#[3#8, 127#8, 1#8, 127#8, 1#8], 5, up⟩ : Column .byte).countMinMax =
      if up then ⟨3, some 4, some 0⟩ else ⟨5, some 4, some 3⟩ := by
  cases up <;> decide

end Column

end Columnar

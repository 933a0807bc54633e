import Mathlib.Data.List.Chain
import Mathlib.Order.Bounds.Defs
import Columnar.Column.Order
import Columnar.Proofs.Missing
import Columnar.Proofs.Ranking

/-!
# Checks of order

A check looks at each element and its successor, and at nothing else. That it finds no fault says
that the column is a chain of elements that may follow each other, and by the transitivity of the
order this is a law about all pairs. In the other direction the check is the same one on the
reversed column, and on a sorted column it only finds out whether missing elements stand before the
last place.

## Main definitions

* `Column.InStep`: an element may be followed by another one.
* `Column.BreaksAt`: an element is missing, or greater than its successor.
-/

namespace Columnar

open Std

section Generic

variable {α : Type} {cmp : α → α → Ordering} {l : List α}

theorem forall_mem_dropLast_iff {p : α → Prop} :
    (∀ x ∈ l.dropLast, p x) ↔ ∀ i (_ : i + 1 < l.length), p l[i] := by
  simp [List.forall_mem_iff_getElem, Nat.lt_sub_iff_add_lt]

/-- If whatever follows a marked element is marked, then the elements before the last one are
unmarked exactly if no two are marked. -/
theorem unmarked_dropLast_iff {p : α → Bool}
    (upward : l.Pairwise fun x y => p x = true → p y = true) :
    (∀ x ∈ l.dropLast, p x = false) ↔ l.countP p ≤ 1 := by
  rcases List.eq_nil_or_concat' l with rfl | ⟨init, last, rfl⟩
  · simp
  obtain ⟨-, -, across⟩ := List.pairwise_append.mp upward
  have count : (init ++ [last]).countP p = init.countP p + if p last then 1 else 0 := by
    rw [List.countP_append, List.countP_singleton]
  rw [List.dropLast_concat, count]
  constructor
  · intro unmarked
    have none : init.countP p = 0 := List.countP_eq_zero.mpr (by simpa using unmarked)
    split <;> omega
  · intro few x inside
    refine Bool.eq_false_iff.mpr fun marked => ?_
    have first : 0 < init.countP p := List.countP_pos_iff.mpr ⟨x, inside, marked⟩
    rw [if_pos (across x inside last (by simp) marked)] at few
    omega

variable [TransCmp cmp]

theorem isChain_isLE_iff : l.IsChain (fun x y => (cmp x y).isLE = true) ↔ Ascending cmp l :=
  have : Trans (fun x y => (cmp x y).isLE = true) (fun x y => (cmp x y).isLE = true)
      (fun x y => (cmp x y).isLE = true) := ⟨TransCmp.isLE_trans⟩
  List.isChain_iff_pairwise

/-- In ascending order equal elements stand side by side. -/
theorem Ascending.isChain_ne_iff (sorted : Ascending cmp l) :
    l.IsChain (fun x y => cmp x y ≠ .eq) ↔ l.Pairwise fun x y => cmp x y ≠ .eq := by
  refine ⟨fun apart => ?_, List.Pairwise.isChain⟩
  have : Trans (fun x y => cmp x y = .lt) (fun x y => cmp x y = .lt)
      (fun x y => cmp x y = .lt) := ⟨TransCmp.lt_trans⟩
  have strict : l.IsChain fun x y => cmp x y = .lt := by
    rw [List.isChain_iff_getElem] at apart ⊢
    intro i inside
    have le := (isChain_isLE_iff.mpr sorted).getElem i inside
    have ne := apart i inside
    revert le ne
    cases cmp l[i] l[i + 1] <;> simp
  refine strict.pairwise.imp fun {x y} less equal => ?_
  rw [less] at equal
  cases equal

end Generic

namespace Column

variable {k : Kind} {env : Environment} {c d : Column k} {direction : SortDirection} {x y : Word k}

/-- The second element may follow the first one. -/
def InStep (c : Column k) (direction : SortDirection) (x y : Word k) : Prop :=
  match direction with
  | .ascending => c.readsMissing x = false ∧ (x.compare y).isLE = true
  | .descending => c.readsMissing y = false ∧ (y.compare x).isLE = true

/-- An element that is not the last one is missing or greater than its successor. -/
def BreaksAt (c : Column k) (i : Nat) : Prop :=
  ∃ x y, c.words[i]? = some x ∧ c.words[i + 1]? = some y ∧
    (c.readsMissing x = true ∨ x.compare y = .gt)

theorem pairViolation_eq_none_iff {i : Nat} :
    c.pairViolation direction i x y = none ↔ c.InStep direction x y := by
  cases direction with
  | ascending =>
    unfold pairViolation InStep
    cases c.readsMissing x <;> cases x.compare y <;> simp
  | descending =>
    unfold pairViolation InStep
    rw [(OrientedCmp.eq_swap : y.compare x = (x.compare y).swap)]
    cases c.readsMissing y <;> cases x.compare y <;> simp

theorem not_inStep_iff :
    ¬ c.InStep .ascending x y ↔ c.readsMissing x = true ∨ x.compare y = .gt := by
  unfold InStep
  cases c.readsMissing x <;> cases x.compare y <;> simp

/-- No fault is found where all elements may follow each other. -/
theorem violationFrom_eq_none_iff {start : Nat} {l : List (Word k)} :
    c.violationFrom direction start l = none ↔ l.IsChain (c.InStep direction) := by
  induction l generalizing start with
  | nil => simp [violationFrom]
  | cons x rest ih =>
    cases rest with
    | nil => simp [violationFrom]
    | cons y rest =>
      rw [violationFrom, Option.or_eq_none_iff, pairViolation_eq_none_iff, ih,
        List.isChain_cons_cons]

/-- The fault that is found is the first one: up to it, all elements may follow each other. -/
theorem exists_of_violationFrom_eq_some {start : Nat} {l : List (Word k)} {v : OrderViolation k}
    (found : c.violationFrom direction start l = some v) :
    ∃ i x y, l[i]? = some x ∧ l[i + 1]? = some y ∧
      c.pairViolation direction (start + i) x y = some v ∧
      (l.take (i + 1)).IsChain (c.InStep direction) := by
  induction l generalizing start with
  | nil => cases found
  | cons x rest ih =>
    cases rest with
    | nil => cases found
    | cons y rest =>
      rcases Option.or_eq_some_iff.mp found with here | ⟨fine, later⟩
      · exact ⟨0, x, y, rfl, rfl, here, .singleton x⟩
      · obtain ⟨i, u, w, first, second, there, chain⟩ := ih later
        rw [Nat.add_right_comm] at there
        refine ⟨i + 1, u, w, first, second, there, ?_⟩
        exact .cons_cons (pairViolation_eq_none_iff.mp fine) chain

theorem violation_eq_none_iff :
    c.violation direction = none ↔ c.words.IsChain (c.InStep direction) :=
  violationFrom_eq_none_iff

/-- A column is ascending when all pairs are in order and only the last element is missing. -/
theorem violation_ascending_eq_none_iff :
    c.violation .ascending = none ↔
      Ascending Word.compare c.words ∧ ∀ x ∈ c.words.dropLast, c.readsMissing x = false := by
  rw [violation_eq_none_iff, ← isChain_isLE_iff, forall_mem_dropLast_iff, and_comm]
  simp only [List.isChain_iff_getElem, InStep, forall_and]

/-- The reported index is the first one at which the order is broken. -/
theorem isLeast_of_violation {v : OrderViolation k} (found : c.violation .ascending = some v) :
    v.direction = .ascending ∧ IsLeast {i | c.BreaksAt i} v.index := by
  obtain ⟨i, x, y, first, second, here, chain⟩ := exists_of_violationFrom_eq_some found
  have place : v.direction = .ascending ∧ v.index = i := by
    unfold pairViolation at here
    grind [OrderViolation.direction, OrderViolation.index]
  have broken : ¬ c.InStep .ascending x y := by
    intro fine
    rw [pairViolation_eq_none_iff.mpr fine] at here
    cases here
  rw [place.2]
  refine ⟨place.1, ⟨x, y, first, second, not_inStep_iff.mp broken⟩, ?_⟩
  rintro j ⟨u, w, hu, hw, breaks⟩
  by_contra earlier
  have inside : j + 1 < (c.words.take (i + 1)).length := by grind
  have fine := chain.getElem j inside
  grind [not_inStep_iff]

/-- In the other direction the check is that of the reversed column. -/
theorem violation_descending_eq_none_iff (words : d.words = c.words.reverse)
    (flag : d.flag = c.flag) : c.violation .descending = none ↔ d.violation .ascending = none := by
  have same : d.InStep .ascending = fun x y => c.InStep .descending y x := by
    funext x y
    simp [InStep, readsMissing, flag]
  rw [violation_eq_none_iff, violation_eq_none_iff, words, same, List.isChain_reverse]

theorem firstTie_eq_none_iff :
    c.firstTie = none ↔ c.words.IsChain fun x y => x.compare y ≠ .eq := by
  simp [firstTie, List.findIdx?_eq_none_iff, List.forall_mem_iff_getElem,
    List.isChain_iff_getElem, Nat.lt_sub_iff_add_lt]

/-! ## Sorted columns -/

/-- Missing elements come last, so there is none before the last place if there is one at most. -/
theorem violation_eq_none_iff_of_ascending (sorted : Ascending Word.compare c.words) :
    c.violation .ascending = none ↔ c.words.countP c.readsMissing ≤ 1 := by
  have last : c.words.Pairwise fun x y => c.readsMissing x = true → c.readsMissing y = true := by
    refine sorted.imp fun le missing => ?_
    obtain ⟨up, sentinel⟩ := Bool.and_eq_true_iff.mp missing
    exact Bool.and_eq_true_iff.mpr ⟨up, Word.isSentinel_of_isLE le sentinel⟩
  rw [violation_ascending_eq_none_iff, and_iff_right sorted]
  exact unmarked_dropLast_iff last

theorem firstTie_eq_none_iff_of_ascending (sorted : Ascending Word.compare c.words) :
    c.firstTie = none ↔ c.words.Pairwise fun x y => x.compare y ≠ .eq :=
  firstTie_eq_none_iff.trans sorted.isChain_ne_iff

/-- Sorting leaves a stable sort of the elements. -/
theorem exists_run_sort (lawful : env.parallelSort.Lawful) (formed : c.WellFormed) :
    ∃ s, (sort env).run c = .ok () s ∧ IsStableSort Word.compare c.words s.words ∧
      s.flag = c.flag := by
  obtain ⟨words, cap, flag, length, fits, raised, rfl⟩ := wellFormed_iff.mp formed
  refine ⟨_, run_sort length, ?_, rfl⟩
  have chosen := Environment.lawful_sorter lawful (env.parallelSortThreshold ≤ words.length)
  simpa using Word.isStableSort_sortWords chosen words

/-- A check of a column compares adjacent elements, and decides the order of all of them. The index
that it reports is the first one at which the order is broken. A column is descending when its
reverse is ascending; sorted, it is ascending when one element at most is missing, and has no tie
when all elements are different. -/
theorem Reachable.checks_order (h : Reachable env c) :
    (c.violation .ascending = none ↔
      Ascending Word.compare c.words ∧ ∀ i, i + 1 < c.size → c.missingAt i = .ok false) ∧
    (∀ v, c.violation .ascending = some v →
      v.direction = .ascending ∧ IsLeast {i | c.BreaksAt i} v.index) ∧
    (∃ r, reverse.run c = .ok () r ∧ r.words = c.words.reverse ∧
      (c.violation .descending = none ↔ r.violation .ascending = none)) ∧
    (env.parallelSort.Lawful →
      ∃ s, (sort env).run c = .ok () s ∧ s.words.Perm c.words ∧ s.flag = c.flag ∧
        (s.violation .ascending = none ↔ c.words.countP c.readsMissing ≤ 1) ∧
        (s.firstTie = none ↔ c.words.Pairwise fun x y => x.compare y ≠ .eq)) := by
  have formed := h.wellFormed
  refine ⟨?_, fun v => isLeast_of_violation, ?_, fun lawful => ?_⟩
  · have inner : (∀ i, i + 1 < c.size → c.missingAt i = .ok false) ↔
        ∀ x ∈ c.words.dropLast, c.readsMissing x = false := by
      simp only [forall_mem_dropLast_iff, ← formed.length_words, missingAt_eq_ok_iff formed]
      refine forall_congr' fun i => forall_congr' fun inside => ?_
      simp [List.getElem?_eq_getElem (Nat.lt_of_succ_lt inside)]
    rw [inner]
    exact violation_ascending_eq_none_iff
  · obtain ⟨words, cap, flag, length, fits, raised, rfl⟩ := wellFormed_iff.mp formed
    refine ⟨_, run_reverse length, by simp, ?_⟩
    exact violation_descending_eq_none_iff (by simp) rfl
  · obtain ⟨s, done, sorted, flag⟩ := exists_run_sort lawful formed
    have reads : s.readsMissing = c.readsMissing := by
      funext w
      rw [readsMissing, flag, readsMissing]
    refine ⟨s, done, sorted.perm, flag, ?_, ?_⟩
    · rw [violation_eq_none_iff_of_ascending sorted.ascending, reads, sorted.perm.countP_eq]
    · rw [firstTie_eq_none_iff_of_ascending sorted.ascending]
      exact sorted.perm.pairwise_iff fun different same => different (OrientedCmp.eq_symm same)

/-- Bytes with a missing one among them, of which two are equal, sorted on several processors. -/
theorem checks_of_four_bytes :
    let env : Environment := { parallelSortThreshold := 4 }
    let c : Column .byte := (ofSlots #[3#8, 5#8, 127#8, 3#8] 4).withFlag true
    env.parallelSort.Lawful ∧
      (∃ v, c.violation .ascending = some v ∧ v.index = 2 ∧ IsLeast {i | c.BreaksAt i} 2) ∧
      c.violation .descending ≠ none ∧
      ∃ s, (sort env).run c = .ok () s ∧ s.violation .ascending = none ∧ s.firstTie ≠ none := by
  intro env c
  have lawful : env.parallelSort.Lawful := Sorter.lawful_sequential
  have reached : Reachable env c := .operated .raiseFlag (.ofWords [3#8, 5#8, 127#8, 3#8] rfl)
  obtain ⟨-, least, ⟨r, done, words, dual⟩, sorts⟩ := Reachable.checks_order reached
  obtain ⟨s, sorted, perm, flag, once, tie⟩ := sorts lawful
  have found : c.violation .ascending = some (.missing .ascending 2) := rfl
  refine ⟨lawful, ⟨_, found, rfl, (least _ found).2⟩, ?_, s, sorted, once.mpr ?_, fun none => ?_⟩
  · have reversed : c.violation .descending = some (.reversed .descending 0 3#8 5#8) := rfl
    simp [reversed]
  · decide
  · have different := tie.mp none
    revert different
    decide

end Column

end Columnar

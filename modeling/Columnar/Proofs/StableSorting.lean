import Columnar.Proofs.Comparing
import Columnar.Proofs.Histories

/-!
# Stable sorting

`IsStableSort cmp l s` says that `s` is `l` put in ascending order, with the elements that compare
equal left in the order in which they stood. There is only one such list, so any two stable sorts
agree, and where only equal elements compare equal, any two sorts do. Of the sorts that work on
several processors nothing is known but that they are sorts, which is what `Sorter.Lawful` says.
-/

namespace Columnar

open Std

section Generic

variable {α : Type} {cmp : α → α → Ordering}

/-- Ascending order, in which equal elements may follow each other. -/
def Ascending (cmp : α → α → Ordering) (l : List α) : Prop :=
  l.Pairwise fun x y => (cmp x y).isLE = true

/-- The elements that compare equal to a given one, in the order in which they stand. -/
def equals (cmp : α → α → Ordering) (l : List α) (a : α) : List α :=
  l.filter fun x => (cmp x a).isEq

/-- What a stable sort makes of a list. -/
structure IsStableSort (cmp : α → α → Ordering) (l sorted : List α) : Prop where
  perm : sorted.Perm l
  ascending : Ascending cmp sorted
  stable : ∀ a, equals cmp sorted a = equals cmp l a

theorem equals_cons (x : α) (l : List α) (a : α) :
    equals cmp (x :: l) a = if (cmp x a).isEq then x :: equals cmp l a else equals cmp l a :=
  List.filter_cons

theorem mem_equals {l : List α} {x a : α} : x ∈ equals cmp l a ↔ x ∈ l ∧ cmp x a = .eq := by
  simp [equals, Ordering.isEq_iff_eq_eq]

theorem Ascending.isStableSort {l : List α} (h : Ascending cmp l) : IsStableSort cmp l l :=
  ⟨.refl l, h, fun _ => rfl⟩

/-- Where only equal elements compare equal, any sort is stable. -/
theorem IsStableSort.of_perm {l s : List α} (lawful : ∀ x y, cmp x y = .eq → x = y)
    (perm : s.Perm l) (ascending : Ascending cmp s) : IsStableSort cmp l s where
  perm := perm
  ascending := ascending
  stable a := by
    have copies (m : List α) : equals cmp m a = List.replicate (equals cmp m a).length a := by
      refine List.eq_replicate_of_mem fun x hx => ?_
      exact lawful x a (mem_equals.mp hx).2
    have lengths : (equals cmp s a).length = (equals cmp l a).length :=
      (perm.filter _).length_eq
    rw [copies s, copies l, lengths]

variable [TransCmp cmp]

theorem mem_equals_self {l : List α} {a : α} : a ∈ equals cmp l a ↔ a ∈ l := by
  rw [mem_equals, and_iff_left ReflCmp.compare_self]

theorem mem_iff_of_equals {s t : List α} (same : ∀ a, equals cmp s a = equals cmp t a) (a : α) :
    a ∈ s ↔ a ∈ t := by
  have classes : a ∈ equals cmp s a ↔ a ∈ equals cmp t a := by rw [same]
  rwa [mem_equals_self, mem_equals_self] at classes

/-- Ascending lists with the same elements in every class are the same list. -/
theorem Ascending.eq_of_equals {s t : List α} (hs : Ascending cmp s) (ht : Ascending cmp t)
    (same : ∀ a, equals cmp s a = equals cmp t a) : s = t := by
  induction s generalizing t with
  | nil =>
    cases t with
    | nil => rfl
    | cons b t => simpa using mem_iff_of_equals same b
  | cons a s ih =>
    cases t with
    | nil => simpa using mem_iff_of_equals same a
    | cons b t =>
      obtain ⟨hs₁, hs₂⟩ := List.pairwise_cons.mp hs
      obtain ⟨ht₁, ht₂⟩ := List.pairwise_cons.mp ht
      -- Each head stands in the other list too, so neither is greater.
      have forward : (cmp a b).isLE = true := by
        rcases List.mem_cons.mp ((mem_iff_of_equals same b).mpr (by simp)) with rfl | later
        · exact ReflCmp.isLE_rfl
        · exact hs₁ b later
      have backward : (cmp b a).isLE = true := by
        rcases List.mem_cons.mp ((mem_iff_of_equals same a).mp (by simp)) with rfl | later
        · exact ReflCmp.isLE_rfl
        · exact ht₁ a later
      have equal : cmp b a = .eq := OrientedCmp.isLE_antisymm backward forward
      have heads := same a
      rw [equals_cons, equals_cons, equal, (ReflCmp.compare_self : cmp a a = .eq)] at heads
      obtain rfl := (List.cons.inj heads).1
      have tails (c : α) : equals cmp s c = equals cmp t c := by
        have whole := same c
        rw [equals_cons, equals_cons] at whole
        split at whole
        · exact (List.cons.inj whole).2
        · exact whole
      rw [ih hs₂ ht₂ tails]

/-- A list has one stable sort. -/
theorem IsStableSort.unique {l s t : List α} (hs : IsStableSort cmp l s)
    (ht : IsStableSort cmp l t) : s = t :=
  hs.ascending.eq_of_equals ht.ascending fun a => (hs.stable a).trans (ht.stable a).symm

/-! ## Sorts of a library -/

theorem isLE_total (x y : α) : ((cmp x y).isLE || (cmp y x).isLE) = true := by
  rw [(OrientedCmp.eq_swap : cmp y x = (cmp x y).swap)]
  cases cmp x y <;> rfl

theorem isStableSort_mergeSort (l : List α) :
    IsStableSort cmp l (l.mergeSort fun x y => (cmp x y).isLE) := by
  have trans (x y z : α) : (cmp x y).isLE = true → (cmp y z).isLE = true →
      (cmp x z).isLE = true := TransCmp.isLE_trans
  have perm := List.mergeSort_perm l fun x y => (cmp x y).isLE
  refine ⟨perm, List.pairwise_mergeSort trans isLE_total l, fun a => ?_⟩
  -- A class is ascending itself, so sorting keeps it as a sublist.
  have level : Ascending cmp (equals cmp l a) := by
    refine List.pairwise_of_forall_mem_list fun x hx y hy => ?_
    have same : cmp x y = .eq :=
      TransCmp.eq_trans (mem_equals.mp hx).2 (OrientedCmp.eq_symm (mem_equals.mp hy).2)
    rw [same]
    rfl
  have kept := List.sublist_mergeSort trans isLE_total level List.filter_sublist
  have inside := kept.filter fun x => (cmp x a).isEq
  simp only [equals, List.filter_filter, Bool.and_self] at inside
  exact (inside.eq_of_length (perm.filter _).length_eq.symm).symm

end Generic

/-- The first sort of a library is stable, and the second is a sort. -/
structure Sorter.Lawful (sorter : Sorter) : Prop where
  isStableSort {α : Type} {cmp : α → α → Ordering} [TransCmp cmp] (l : List α) :
    IsStableSort cmp l (sorter.stable cmp l)
  ascending {α : Type} {cmp : α → α → Ordering} [TransCmp cmp] (l : List α) :
    Ascending cmp (sorter.unstable cmp l)

theorem Sorter.lawful_sequential : Sorter.sequential.Lawful where
  isStableSort := isStableSort_mergeSort
  ascending l := (isStableSort_mergeSort l).ascending

/-- Both strategies sort if the one on several processors does. -/
theorem Environment.lawful_sorter {env : Environment} (lawful : env.parallelSort.Lawful)
    (parallel : Bool) : (env.sorter parallel).Lawful := by
  cases parallel with
  | false => exact Sorter.lawful_sequential
  | true => exact lawful

/-- A sort that may exchange equal elements is stable where only the same ones are equal. -/
theorem Sorter.Lawful.isStableSort_unstable {α : Type} {cmp : α → α → Ordering} [TransCmp cmp]
    {sorter : Sorter} (lawful : sorter.Lawful) (same : ∀ x y, cmp x y = .eq → x = y) (l : List α) :
    IsStableSort cmp l (sorter.unstable cmp l) :=
  .of_perm same (sorter.unstable_perm cmp l) (lawful.ascending l)

/-! ## Unsigned words -/

section Patterns

variable {n : Nat} {x y : BitVec n}

theorem toNat_le_of_toInt_le (same : x.msb = y.msb) (h : x.toInt ≤ y.toInt) :
    x.toNat ≤ y.toNat := by
  rw [BitVec.toInt_eq_msb_cond, BitVec.toInt_eq_msb_cond, same] at h
  split at h <;> omega

theorem toNat_le_of_msb (hx : x.msb = false) (hy : y.msb = true) : x.toNat ≤ y.toNat := by
  rw [BitVec.msb_eq_decide] at hx hy
  simp only [decide_eq_false_iff_not, decide_eq_true_eq] at hx hy
  omega

/-- Behind a pattern without the top bit stands none with it. -/
theorem msb_of_mem_dropWhile {l : List (BitVec n)} (h : Ascending (compareOn BitVec.toInt) l) :
    ∀ x ∈ l.dropWhile (·.msb), x.msb = false := by
  induction l with
  | nil => simp
  | cons a l ih =>
    obtain ⟨first, rest⟩ := List.pairwise_cons.mp h
    intro x hx
    by_cases top : a.msb = true
    · rw [List.dropWhile_cons_of_pos top] at hx
      exact ih rest x hx
    · rw [List.dropWhile_cons_of_neg top] at hx
      have low : a.msb = false := by simpa using top
      rcases List.mem_cons.mp hx with rfl | later
      · exact low
      · have le : a.toInt ≤ x.toInt := Int.isLE_compare.mp (first x later)
        rw [BitVec.msb_eq_toInt, decide_eq_false_iff_not] at low ⊢
        omega

/-- Patterns in signed order come into unsigned order when the upper half is moved to the end. -/
theorem ascending_rotateLeading {l : List (BitVec n)} (h : Ascending (compareOn BitVec.toInt) l) :
    Ascending (compareOn BitVec.toNat) (Word.rotateLeading (·.msb) l) := by
  have low := msb_of_mem_dropWhile h
  have high : ∀ x ∈ l.takeWhile (·.msb), x.msb = true := List.all_eq_true.mp List.all_takeWhile
  refine List.pairwise_append.mpr ⟨?_, ?_, fun x hx y hy => ?_⟩
  · refine (h.sublist (List.dropWhile_sublist _)).imp_of_mem fun hx hy le => ?_
    have same := (low _ hx).trans (low _ hy).symm
    exact Nat.isLE_compare.mpr (toNat_le_of_toInt_le same (Int.isLE_compare.mp le))
  · refine (h.sublist (List.takeWhile_sublist _)).imp_of_mem fun hx hy le => ?_
    have same := (high _ hx).trans (high _ hy).symm
    exact Nat.isLE_compare.mpr (toNat_le_of_toInt_le same (Int.isLE_compare.mp le))
  · exact Nat.isLE_compare.mpr (toNat_le_of_msb (low x hx) (high y hy))

/-- Unsigned patterns are sorted by way of their signed order. -/
theorem isStableSort_rotateLeading {sorter : Sorter} (lawful : sorter.Lawful) (l : List (BitVec n)) :
    IsStableSort (compareOn BitVec.toNat) l
      (Word.rotateLeading (·.msb) (sorter.unstable (compareOn BitVec.toInt) l)) := by
  refine .of_perm (fun x y same => ?_) ?_ (ascending_rotateLeading (lawful.ascending l))
  · exact BitVec.eq_of_toNat_eq (Nat.compare_eq_eq.mp same)
  · exact (Word.rotateLeading_perm _ _).trans (sorter.unstable_perm _ l)

end Patterns

namespace Word

variable {k : Kind} {sorter : Sorter}

theorem isStableSort_sortWords (lawful : sorter.Lawful) (l : List (Word k)) :
    IsStableSort compare l (sortWords sorter l) := by
  have stable : IsStableSort compare l (sorter.stable compare l) := lawful.isStableSort l
  have unstable (same : ∀ x y : Word k, compare x y = .eq → x = y) :
      IsStableSort compare l (sorter.unstable compare l) := lawful.isStableSort_unstable same l
  cases k with
  | signed w => exact unstable fun _ _ => compare_eq_iff.mp
  | unsigned w => exact isStableSort_rotateLeading (n := w.bits) lawful l
  | floating | char | string => exact stable

/-- Sorting finds the one list that is a stable sort. -/
theorem sortWords_eq (lawful : sorter.Lawful) {l s : List (Word k)} (h : IsStableSort compare l s) :
    sortWords sorter l = s :=
  (isStableSort_sortWords lawful l).unique h

end Word

namespace Column

variable {k : Kind} {env : Environment} {c : Column k}

/-- Sorting is stable whatever the strategy, so the strategies agree, for unsigned words with the
sort by value too. A column is sorted in place, with its sentinels behind all other elements, and a
second time to no effect. -/
theorem Reachable.sorts_stably (h : Reachable env c) (lawful : env.parallelSort.Lawful) :
    (∀ parallel (l : List (Word k)),
        IsStableSort Word.compare l (Word.sortWords (env.sorter parallel) l)) ∧
      (∀ l : List (Word k),
        Word.sortWords (env.sorter true) l = Word.sortWords (env.sorter false) l) ∧
      (∀ (w : IntWidth) parallel (l : List (BitVec w.bits)),
        Word.rotateLeading (·.msb) ((env.sorter parallel).unstable (compareOn BitVec.toInt) l) =
          l.mergeSort fun x y => x.toNat ≤ y.toNat) ∧
      ∃ d, (sort env).run c = .ok () d ∧ IsStableSort Word.compare c.words d.words ∧
        d.words.Pairwise (fun x y => x.isSentinel = true → y.isSentinel = true) ∧
        (sort env).run d = .ok () d ∧ d.size = c.size ∧ d.capacity = c.capacity ∧
        (∀ i, c.size ≤ i → d.slots[i]? = c.slots[i]?) ∧ d.flag = c.flag := by
  have sorters := Environment.lawful_sorter lawful
  have sorts (parallel) (l : List (Word k)) := Word.isStableSort_sortWords (sorters parallel) l
  refine ⟨sorts, fun l => (sorts true l).unique (sorts false l), fun w parallel l => ?_, ?_⟩
  · have byValue : (fun x y : BitVec w.bits => decide (x.toNat ≤ y.toNat)) =
        fun x y => (compareOn BitVec.toNat x y).isLE := by
      funext x y
      exact Bool.eq_iff_iff.mpr (decide_eq_true_iff.trans Nat.isLE_compare.symm)
    rw [byValue]
    exact (isStableSort_rotateLeading (sorters parallel) l).unique (isStableSort_mergeSort l)
  obtain ⟨words, cap, flag, length, fits, raised, rfl⟩ := wellFormed_iff.mp h.wellFormed
  have chosen := sorters (env.parallelSortThreshold ≤ words.length)
  have sorted := Word.isStableSort_sortWords chosen words
  have same := sorted.perm.length_eq
  have twice := Word.sortWords_eq chosen sorted.ascending.isStableSort
  refine ⟨_, run_sort length, ?_, ?_, ?_, same, ?_, fun i beyond => ?_, rfl⟩
  · simpa using sorted
  · rw [words_holding]
    exact sorted.ascending.imp Word.isSentinel_of_isLE
  · rw [run_sort (by omega), same, twice]
  · rw [capacity_holding (by omega), capacity_holding length]
  · rw [size_holding] at beyond
    simp only [holding, List.getElem?_toArray]
    rw [List.getElem?_append_right (by omega), List.getElem?_append_right beyond, same]

/-- Three bytes, of which the first two have the top bit and the second is the sentinel, sorted on
several processors. -/
theorem sort_of_three_bytes :
    let env : Environment := { parallelSortThreshold := 2 }
    let c : Column .ubyte := ofSlots #[200#8, 255#8, 3#8] 3
    env.parallelSort.Lawful ∧
      ∃ d, (sort env).run c = .ok () d ∧ d.words = [3#8, 200#8, 255#8] ∧
        (sort env).run d = .ok () d ∧ d.capacity = 3 ∧ d.flag = false := by
  intro env c
  have lawful : env.parallelSort.Lawful := Sorter.lawful_sequential
  have reached : Reachable env c := .ofWords [200#8, 255#8, 3#8] rfl
  obtain ⟨-, -, -, d, sorted, stable, -, again, -, capacity, -, flag⟩ :=
    Reachable.sorts_stably reached lawful
  have expected : IsStableSort Word.compare c.words [3#8, 200#8, 255#8] :=
    .of_perm (fun _ _ => Word.compare_eq_iff.mp) (by decide) (by unfold Ascending; decide)
  have words := (Word.sortWords_eq lawful stable).symm.trans (Word.sortWords_eq lawful expected)
  exact ⟨lawful, d, sorted, words, again, capacity, flag⟩

end Column

end Columnar

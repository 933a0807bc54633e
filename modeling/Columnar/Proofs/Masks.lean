import Columnar.Proofs.Histories

/-!
# Keeping by a mask

A mask keeps the elements at the places of its set bits. A second mask counts the places of the
elements that the first one has kept, so the two together are one mask, in which a bit of the second
stands at the place of the element that it is about.

## Main definitions

* `Column.keeps`: the places at which a mask keeps an element.
* `Column.composed`: the mask that two masks make one after the other.
-/

namespace Columnar.Column

variable {k : Kind} {env : Environment} {c d : Column k}

/-- The bit of a mask at a place exists and is set. -/
def keeps (mask : List Bool) (i : Nat) : Bool := mask[i]? == some true

/-- The mask that keeps what is left when the elements that one mask has kept are kept by a later
one. -/
def composed (mask later : List Bool) : List Bool :=
  (List.range mask.length).map fun i =>
    keeps mask i && keeps later ((mask.take i).countP fun keep => keep)

section

variable {α : Type}

theorem keeps_zero (keep : Bool) (mask : List Bool) : keeps (keep :: mask) 0 = keep := by
  cases keep <;> rfl

theorem keeps_succ (keep : Bool) (mask : List Bool) (i : Nat) :
    keeps (keep :: mask) (i + 1) = keeps mask i := rfl

/-! ## Selected elements -/

/-- The elements at chosen places, of which the first one is apart from the others. -/
theorem map_filter_zipIdx_cons (p : Nat → Bool) (a : α) (l : List α) :
    ((a :: l).zipIdx.filter fun e => p e.2).map (·.1) =
      (if p 0 then [a] else []) ++ (l.zipIdx.filter fun e => p (e.2 + 1)).map (·.1) := by
  have rest : ((l.zipIdx 1).filter fun e => p e.2).map (·.1) =
      (l.zipIdx.filter fun e => p (e.2 + 1)).map (·.1) := by
    rw [List.zipIdx_succ, List.filter_map, List.map_map]
    rfl
  rw [List.zipIdx_cons, List.filter_cons, ← rest]
  split <;> simp [*]

theorem selected_eq_zipIdx (mask : List Bool) (l : List α) :
    selected mask l = (l.zipIdx.filter fun e => keeps mask e.2).map (·.1) := by
  induction l generalizing mask with
  | nil => simp
  | cons a l ih =>
    rw [map_filter_zipIdx_cons]
    cases mask with
    | nil => simp [keeps]
    | cons keep mask =>
      simp only [keeps_zero, keeps_succ, ← ih, selected_cons]
      cases keep <;> rfl

theorem length_selected (mask : List Bool) (l : List α) :
    (selected mask l).length = (List.range l.length).countP (keeps mask) := by
  have places : l.zipIdx.map (·.2) = List.range l.length := by simp [List.range_eq_range']
  rw [selected_eq_zipIdx, List.length_map, ← List.countP_eq_length_filter, ← places,
    List.countP_map]
  rfl

/-! ## Two masks -/

theorem composed_nil (later : List Bool) : composed [] later = [] := rfl

theorem keeps_drop_one (later : List Bool) (i : Nat) :
    keeps later (i + 1) = keeps (later.drop 1) i := by
  cases later <;> rfl

/-- An element that the first mask drops takes no bit of the second. -/
theorem composed_cons (keep : Bool) (mask later : List Bool) :
    composed (keep :: mask) later =
      (keep && keeps later 0) :: composed mask (if keep then later.drop 1 else later) := by
  unfold composed
  rw [List.length_cons, List.range_succ_eq_map, List.map_cons, List.map_map]
  congr 1
  · simp [keeps_zero]
  · refine List.map_congr_left fun i _ => ?_
    cases keep <;> simp [keeps_drop_one]

theorem selected_selected (mask later : List Bool) (l : List α) :
    selected later (selected mask l) = selected (composed mask later) l := by
  induction mask generalizing later l with
  | nil => simp [composed_nil]
  | cons keep mask ih =>
    cases l with
    | nil => simp
    | cons a l =>
      rw [composed_cons, selected_cons, selected_cons]
      cases keep with
      | false => simp [ih]
      | true =>
        cases later with
        | nil => simp [keeps, ← ih]
        | cons bit later => simp [keeps_zero, ih]

end

/-! ## Elements that are kept -/

/-- The elements at the places that a mask keeps are left, in their order, and zero words behind
them. -/
structure Masked (c d : Column k) (mask : List Bool) : Prop where
  words : d.words = (c.words.zipIdx.filter fun e => keeps mask e.2).map (·.1)
  size : d.size = (List.range c.size).countP (keeps mask)
  capacity : d.capacity = c.capacity
  flag : d.flag = c.flag
  spare : ∀ i (_ : i < d.slots.size), d.size ≤ i → d.slots[i] = Word.zero k

/-- Keeping by a mask never fails. It leaves just the elements whose bit exists and is set, in their
order, and keeping by a later mask after that is keeping by the two masks composed. -/
theorem Reachable.keeps_masked (h : Reachable env c) (mask : List Bool) :
    ∃ d, (justKeep mask).run c = .ok () d ∧ Masked c d mask ∧
      ∀ later, ∃ e, (justKeep later).run d = .ok () e ∧
        (justKeep (composed mask later)).run c = .ok () e := by
  obtain ⟨words, cap, flag, length, fits, raised, rfl⟩ := wellFormed_iff.mp h.wellFormed
  have shorter : (selected mask words).length ≤ cap :=
    Nat.le_trans (length_selected_le mask words) length
  have formed : (holding (selected mask words) cap flag).WellFormed :=
    wellFormed_holding shorter fits raised
  refine ⟨_, run_justKeep length mask, ⟨?_, ?_, ?_, rfl, formed.spare⟩, fun later => ?_⟩
  · rw [words_holding, words_holding, selected_eq_zipIdx]
  · exact length_selected mask words
  · rw [capacity_holding length, capacity_holding shorter]
  · refine ⟨_, run_justKeep shorter later, ?_⟩
    rw [run_justKeep length, selected_selected]

/-- Four bytes under a mask that is too short, and then under one that is too long. -/
theorem masked_of_four_bytes :
    let c : Column .byte := ofSlots #[1#8, 2#8, 3#8, 4#8] 4
    composed [true, false, true] [false, true, true] = [false, false, true] ∧
      ∃ d, (justKeep [true, false, true]).run c = .ok () d ∧ d.words = [1#8, 3#8] ∧ d.size = 2 ∧
        d.capacity = 4 ∧
        ∃ e, (justKeep [false, true, true]).run d = .ok () e ∧
          (justKeep [false, false, true]).run c = .ok () e := by
  intro c
  have reached : Reachable {} c := .ofWords [1#8, 2#8, 3#8, 4#8] rfl
  have one_mask : composed [true, false, true] [false, true, true] = [false, false, true] := by
    decide
  obtain ⟨d, kept, masked, again⟩ := Reachable.keeps_masked reached [true, false, true]
  obtain ⟨e, twice, once⟩ := again [false, true, true]
  exact ⟨one_mask, d, kept, masked.words, masked.size, masked.capacity, e, twice,
    one_mask ▸ once⟩

end Columnar.Column

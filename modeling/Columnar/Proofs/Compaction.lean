import Columnar.Proofs.Holding

/-!
# Compaction in place

The elements that a mask selects are brought together at the front of the buffer, each one in
exchange for the element that stands in its new place. While this goes on the slots are in three
parts: the elements selected so far, in order; those passed over so far, in an order of no interest;
and those not looked at yet, untouched.

## Main definitions

* `Column.selected`: the elements of a list whose mask bit is set.

## Main statements

* `Column.compact_append`: what compaction makes of slots in three parts.
* `Column.compact_holding`: what it makes of a column.
-/

namespace Columnar

/-- An element changes places with the first of those that were passed over, which then is the last
of them. -/
theorem exists_swapIfInBounds {α : Type} (front passed rest : List α) (a : α) :
    ∃ after : List α, after.length = passed.length ∧
      (front ++ passed ++ a :: rest).toArray.swapIfInBounds front.length
        (front.length + passed.length) = (front ++ [a] ++ after ++ rest).toArray := by
  cases passed with
  | nil => exact ⟨[], rfl, by simp [Array.swapIfInBounds, Array.swap]⟩
  | cons b passed =>
    exact ⟨passed ++ [b], by simp, by simp [Array.swapIfInBounds, Array.swap]⟩

namespace Column

variable {k : Kind} {α : Type}

/-- The elements of a list whose mask bit exists and is set. -/
def selected : List Bool → List α → List α
  | [], _ => []
  | _ :: _, [] => []
  | keep :: mask, a :: l => if keep then a :: selected mask l else selected mask l

@[simp] theorem selected_nil_left (l : List α) : selected [] l = [] := rfl

@[simp] theorem selected_nil_right (mask : List Bool) : selected mask ([] : List α) = [] := by
  cases mask <;> rfl

@[simp] theorem selected_cons (keep : Bool) (mask : List Bool) (a : α) (l : List α) :
    selected (keep :: mask) (a :: l) = if keep then a :: selected mask l else selected mask l := rfl

theorem length_selected_le (mask : List Bool) (l : List α) :
    (selected mask l).length ≤ l.length := by
  fun_induction selected mask l <;> grind

/-- Bits past the end of a list select nothing. -/
theorem selected_take_append (mask : List Bool) (l more : List α) :
    selected (mask.take l.length) (l ++ more) = selected mask l := by
  fun_induction selected mask l <;> simp_all

/-- One step after the other, a slot is selected and joins those in front, or it is passed over. -/
theorem compact_append (front passed rest : List (Word k)) (mask : List Bool)
    (inside : mask.length ≤ rest.length) :
    ∃ after, after.length + (selected mask rest).length = passed.length + mask.length ∧
      compact (front ++ passed ++ rest).toArray front.length (front.length + passed.length) mask =
        ((front ++ selected mask rest ++ after ++ rest.drop mask.length).toArray,
          front.length + (selected mask rest).length) := by
  induction mask generalizing front passed rest with
  | nil => exact ⟨passed, by simp [compact]⟩
  | cons keep mask ih =>
    obtain ⟨w, rest, rfl⟩ := List.exists_cons_of_length_pos (Nat.lt_of_lt_of_le (by simp) inside)
    have fewer : mask.length ≤ rest.length := by simpa using inside
    cases keep with
    | true =>
      obtain ⟨turned, same, swapped⟩ := exists_swapIfInBounds front passed rest w
      obtain ⟨after, length, compacted⟩ := ih (front ++ [w]) turned rest fewer
      refine ⟨after, ?_, ?_⟩
      · simp only [selected_cons, if_true, List.length_cons]
        omega
      · have next : front.length + passed.length + 1 = (front ++ [w]).length + turned.length := by
          simp
          omega
        have front_length : front.length + 1 = (front ++ [w]).length := by simp
        rw [compact, swapped, next, front_length, compacted]
        simp [Nat.add_assoc, Nat.add_comm 1]
    | false =>
      obtain ⟨after, length, compacted⟩ := ih front (passed ++ [w]) rest fewer
      have more : (passed ++ [w]).length = passed.length + 1 := by simp
      have same : front ++ passed ++ w :: rest = front ++ (passed ++ [w]) ++ rest := by simp
      refine ⟨after, ?_, ?_⟩
      · simp only [selected_cons, Bool.false_eq_true, if_false, List.length_cons]
        omega
      · rw [compact, same, Nat.add_assoc, ← more, compacted]
        simp

/-- Compaction leaves the selected elements in front of the others. -/
theorem compact_holding (mask : List Bool) (words : List (Word k)) (cap : Nat) (flag : Bool) :
    ∃ others, (selected mask words ++ others).length = words.length ∧
      compact (holding words cap flag).slots 0 0 (mask.take words.length) =
        ((holding (selected mask words ++ others) cap flag).slots,
          (selected mask words).length) := by
  obtain ⟨after, length, compacted⟩ := compact_append [] []
    (words ++ List.replicate (cap - words.length) (Word.zero k)) (mask.take words.length)
    (by grind)
  rw [selected_take_append] at length compacted
  generalize bits : (mask.take words.length).length = n at length compacted
  have inside : n ≤ words.length := by grind
  have same : (selected mask words ++ (after ++ words.drop n)).length = words.length := by
    simp at length ⊢
    omega
  refine ⟨after ++ words.drop n, same, compacted.trans ?_⟩
  simp [holding, same, List.drop_append_of_le_length inside]

end Column

end Columnar

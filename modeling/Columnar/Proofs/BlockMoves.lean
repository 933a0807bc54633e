import Columnar.Proofs.Histories

/-!
# Moves of blocks

A block of elements is moved by exchanging it with the elements between it and its destination.
Written as four blocks in a row, of which the two in the middle change places, a move has no
arithmetic left in it: that no element is lost and that a second exchange undoes the first are seen
from the blocks.

## Main definitions

* `Column.Misplaced`: the arguments of a move that are refused.
* `Column.BlockMoved`: how a column differs from another one after a move.
-/

namespace Columnar

/-! ## Two blocks change places -/

section

variable {α : Type} {low middle high : Nat} {l : List α}

theorem exchange_append (a b c d : List α) :
    exchange a.length (a.length + b.length) (a.length + b.length + c.length) (a ++ b ++ c ++ d) =
      a ++ c ++ b ++ d := by
  have first : (a ++ b ++ c ++ d).take a.length = a := by
    rw [List.append_assoc, List.append_assoc, List.take_left]
  have second : (a ++ b ++ c ++ d).take (a.length + b.length) = a ++ b := by
    rw [← List.length_append, List.append_assoc, List.take_left]
  have third : (a ++ b ++ c ++ d).take (a.length + b.length + c.length) = a ++ b ++ c := by
    rw [← List.length_append, ← List.length_append, List.take_left]
  have rest : (a ++ b ++ c ++ d).drop (a.length + b.length + c.length) = d := by
    rw [← List.length_append, ← List.length_append, List.drop_left]
  have between : (a ++ b ++ c).drop (a.length + b.length) = c := by
    rw [← List.length_append, List.drop_left]
  rw [exchange, first, second, third, rest, between, List.drop_left]

/-- A list cut at three places. -/
theorem exists_blocks (h₁ : low ≤ middle) (h₂ : middle ≤ high) (h₃ : high ≤ l.length) :
    ∃ a b c d, l = a ++ b ++ c ++ d ∧ a.length = low ∧ a.length + b.length = middle ∧
      a.length + b.length + c.length = high := by
  have cut (l : List α) (n : Nat) (inside : n ≤ l.length) : ∃ a b, l = a ++ b ∧ a.length = n :=
    ⟨l.take n, l.drop n, (List.take_append_drop n l).symm, List.length_take_of_le inside⟩
  obtain ⟨a, rest, rfl, first⟩ := cut l low (by omega)
  rw [List.length_append] at h₃
  obtain ⟨b, rest, rfl, second⟩ := cut rest (middle - low) (by omega)
  rw [List.length_append] at h₃
  obtain ⟨c, d, rfl, third⟩ := cut rest (high - middle) (by omega)
  exact ⟨a, b, c, d, by simp only [List.append_assoc], first, by omega, by omega⟩

theorem exchange_perm (h₁ : low ≤ middle) (h₂ : middle ≤ high) (h₃ : high ≤ l.length) :
    (exchange low middle high l).Perm l := by
  obtain ⟨a, b, c, d, rfl, rfl, rfl, rfl⟩ := exists_blocks h₁ h₂ h₃
  rw [exchange_append, List.append_assoc a c b, List.append_assoc a b c]
  exact (List.perm_append_comm.append_left a).append_right d

/-- The blocks change places again. -/
theorem exchange_exchange (h₁ : low ≤ middle) (h₂ : middle ≤ high) (h₃ : high ≤ l.length) :
    exchange low (low + (high - middle)) high (exchange low middle high l) = l := by
  obtain ⟨a, b, c, d, rfl, rfl, rfl, rfl⟩ := exists_blocks h₁ h₂ h₃
  have back := exchange_append a c b d
  rw [Nat.add_right_comm] at back
  rw [exchange_append, Nat.add_sub_cancel_left, back]

theorem take_append_drop_take (h : low ≤ high) :
    l.take low ++ (l.take high).drop low = l.take high := by
  have split := List.take_append_drop low (l.take high)
  rwa [List.take_take, Nat.min_eq_left h] at split

theorem exchange_self_left (h : low ≤ high) : exchange low low high l = l := by
  rw [exchange, take_append_drop_take h, List.drop_take_self, List.append_nil,
    List.take_append_drop]

theorem exchange_self_right (h : low ≤ high) : exchange low high high l = l := by
  rw [exchange, List.drop_take_self, List.append_nil, take_append_drop_take h,
    List.take_append_drop]

end

namespace Column

variable {k : Kind} {env : Environment} {c d : Column k} {first last destination : Nat}

/-! ## Moves of lists -/

section

variable {α : Type} {l : List α}

theorem moved_of_le (ordered : first ≤ last) (down : destination ≤ first) :
    moved first last destination l = exchange destination first last l := by
  unfold moved
  split
  case isTrue => rfl
  case isFalse here =>
    obtain rfl : destination = first := by omega
    rw [if_neg (by omega), exchange_self_left ordered]

theorem moved_of_ge (ordered : first ≤ last) (up : last ≤ destination) :
    moved first last destination l = exchange first last destination l := by
  unfold moved
  split
  case isTrue inside => omega
  case isFalse =>
    split
    case isTrue => rfl
    case isFalse here =>
      obtain rfl : destination = last := by omega
      rw [exchange_self_right ordered]

end

/-! ## Moves in a column -/

/-- The arguments with which a move is refused in a column of `size` elements. -/
def Misplaced (size first last destination : Nat) : Prop :=
  size < last ∨ size < destination ∨ last < first ∨ first < destination ∧ destination < last

instance (size first last destination : Nat) : Decidable (Misplaced size first last destination) :=
  inferInstanceAs (Decidable (_ ∨ _ ∨ _ ∨ _ ∧ _))

/-- The elements of `[first, last)` were moved before the one at `destination`, and nothing else
happened to the column. -/
structure BlockMoved (c d : Column k) (first last destination : Nat) : Prop where
  down : destination ≤ first → d.words = c.words.take destination ++
    (c.words.take last).drop first ++ (c.words.take first).drop destination ++ c.words.drop last
  up : last ≤ destination → d.words = c.words.take first ++
    (c.words.take destination).drop last ++ (c.words.take last).drop first ++
    c.words.drop destination
  perm : d.words.Perm c.words
  size : d.size = c.size
  capacity : d.capacity = c.capacity
  flag : d.flag = c.flag
  spare : ∀ i, c.size ≤ i → d.slots[i]? = c.slots[i]?

theorem run_moveRange_of_misplaced {words : List (Word k)} {cap : Nat} {flag : Bool}
    (misplaced : Misplaced words.length first last destination) :
    ∃ e, (moveRange first last destination).run (holding words cap flag) =
      .error e (holding words cap flag) := by
  rw [run_moveRange]
  unfold Misplaced at misplaced
  split
  · exact ⟨_, rfl⟩
  split
  · exact ⟨_, rfl⟩
  split
  · exact ⟨_, rfl⟩
  · rw [if_pos (by omega)]
    exact ⟨_, rfl⟩

theorem run_moveRange_of_not_misplaced {words : List (Word k)} {cap : Nat} {flag : Bool}
    (placed : ¬ Misplaced words.length first last destination) :
    (moveRange first last destination).run (holding words cap flag) =
      .ok () (holding (moved first last destination words) cap flag) := by
  unfold Misplaced at placed
  rw [run_moveRange, if_neg (by omega), if_neg (by omega), if_neg (by omega), if_neg (by omega)]

/-- What a move does to the elements, and that it does nothing else. -/
theorem blockMoved_holding {words : List (Word k)} {cap : Nat} {flag : Bool}
    (length : words.length ≤ cap) (placed : ¬ Misplaced words.length first last destination) :
    BlockMoved (holding words cap flag) (holding (moved first last destination words) cap flag)
      first last destination := by
  unfold Misplaced at placed
  have ordered : first ≤ last := by omega
  have same : (moved first last destination words).length = words.length :=
    length_moved ordered (by omega) (by omega)
  constructor
  case down =>
    intro down
    rw [words_holding, words_holding, moved_of_le ordered down, exchange]
  case up =>
    intro up
    rw [words_holding, words_holding, moved_of_ge ordered up, exchange]
  case perm =>
    rw [words_holding, words_holding]
    rcases Nat.lt_or_ge first destination with up | down
    · rw [moved_of_ge ordered (by omega)]
      exact exchange_perm ordered (by omega) (by omega)
    · rw [moved_of_le ordered down]
      exact exchange_perm down ordered (by omega)
  case size => exact same
  case capacity => rw [capacity_holding length, capacity_holding (by omega)]
  case flag => rfl
  case spare =>
    intro i beyond
    rw [size_holding] at beyond
    simp [holding, same, List.getElem?_append_right, beyond]

/-- A move is refused exactly if its block or its destination is beyond the elements, its block is
reversed, or its destination is inside the block. Otherwise the block comes to stand at the
destination, the elements between its old and its new place behind or before it, and a move back to
the old place undoes the move. -/
theorem Reachable.moves_block (h : Reachable env c) (first last destination : Nat) :
    (Misplaced c.size first last destination →
        ∃ e, (moveRange first last destination).run c = .error e c) ∧
      (¬ Misplaced c.size first last destination →
        ∃ d, (moveRange first last destination).run c = .ok () d ∧
          BlockMoved c d first last destination ∧
          (destination ≤ first →
            (moveRange destination (destination + (last - first)) last).run d = .ok () c) ∧
          (last ≤ destination →
            (moveRange (destination - (last - first)) destination first).run d = .ok () c)) := by
  obtain ⟨words, cap, flag, length, fits, raised, rfl⟩ := wellFormed_iff.mp h.wellFormed
  rw [size_holding]
  refine ⟨run_moveRange_of_misplaced, fun placed => ⟨_, run_moveRange_of_not_misplaced placed,
    blockMoved_holding length placed, fun down => ?_, fun up => ?_⟩⟩
  all_goals
    unfold Misplaced at placed
    have ordered : first ≤ last := by omega
    have same : (moved first last destination words).length = words.length :=
      length_moved ordered (by omega) (by omega)
  · rw [run_moveRange_of_not_misplaced (by unfold Misplaced; omega),
      moved_of_ge (by omega) (by omega), moved_of_le ordered down,
      exchange_exchange down ordered (by omega)]
  · have place : destination - (last - first) = first + (destination - last) := by omega
    rw [run_moveRange_of_not_misplaced (by unfold Misplaced; omega),
      moved_of_le (by omega) (by omega), moved_of_ge ordered up, place,
      exchange_exchange ordered up (by omega)]

/-- A block of two is moved to the front and a block of one to the end of five integers; a
destination inside the block is refused. -/
theorem moves_of_five_ints :
    let c : Column .int := ofSlots #[0#32, 1#32, 2#32, 3#32, 4#32] 5
    (∃ d, (moveRange 1 3 0).run c = .ok () d ∧ d.words = [1#32, 2#32, 0#32, 3#32, 4#32] ∧
        (moveRange 0 2 3).run d = .ok () c) ∧
      (∃ d, (moveRange 1 2 4).run c = .ok () d ∧ d.words = [0#32, 2#32, 3#32, 1#32, 4#32] ∧
        (moveRange 3 4 1).run d = .ok () c) ∧
      ∃ e, (moveRange 1 4 2).run c = .error e c := by
  intro c
  have reached : Reachable {} c := .ofWords [0#32, 1#32, 2#32, 3#32, 4#32] rfl
  obtain ⟨d, down, placed, back, -⟩ := (Reachable.moves_block reached 1 3 0).2 (by decide)
  obtain ⟨e, up, behind, -, forth⟩ := (Reachable.moves_block reached 1 2 4).2 (by decide)
  have refused := (Reachable.moves_block reached 1 4 2).1 (by decide)
  exact ⟨⟨d, down, placed.down (by decide), back (by decide)⟩,
    ⟨e, up, behind.up (by decide), forth (by decide)⟩, refused⟩

end Column

end Columnar

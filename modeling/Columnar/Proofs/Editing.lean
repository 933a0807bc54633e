import Columnar.Proofs.Compaction
import Columnar.Proofs.Growth
import Columnar.Proofs.Sorting

/-!
# Edits as operations on lists

What each edit does to a column that holds a list of words: its failures, which leave the column as
it is, and the list that the column holds after a success.
-/

namespace Columnar.Column

variable {k : Kind} {env : Environment} {words : List (Word k)} {cap : Nat} {flag : Bool}

/-- What comes of holding `new` instead of `words`, for which room has to be made first. -/
def enlarge (env : Environment) (words new : List (Word k)) (cap : Nat) (flag raised : Bool) :
    EStateM.Result ColumnError (Column k) Unit :=
  match refusal env k cap new.length with
  | some e => .error e (holding words cap flag)
  | none => .ok () (holding new (capacityFor cap new.length) raised)

/-- The list with the elements of `[first, last)` moved before the one at `destination`. -/
def moved {α : Type} (first last destination : Nat) (l : List α) : List α :=
  if destination < first then exchange destination first last l
  else if last < destination then exchange first last destination l
  else l

/-! ## Storing and adding -/

theorem run_setWord (i : Nat) (w : Word k) :
    (setWord i w).run (holding words cap flag) =
      if i < words.length then .ok () (holding (words.set i w) cap flag)
      else .error (.indexOutOfBounds k i words.length) (holding words cap flag) := by
  by_cases h : i < words.length <;> simp [setWord, h, put_holding]

/-- While there are spare slots, nothing is refused. -/
theorem enlarge_of_le {new : List (Word k)} {raised : Bool} (enough : new.length ≤ cap)
    (fits : cap ≤ maxSize) :
    enlarge env words new cap flag raised = .ok () (holding new cap raised) := by
  rw [enlarge, refusal_of_le enough fits, capacityFor_of_le enough]

/-- Growing to as many elements is refused alike, and succeeds alike if the same is held then. -/
theorem enlarge_eq_enlarge_iff {new other : List (Word k)} {up down : Bool}
    (lengths : new.length = other.length) :
    enlarge env words new cap flag up = enlarge env words other cap flag down ↔
      (refusal env k cap new.length = none → new = other ∧ up = down) := by
  unfold enlarge
  rw [lengths]
  cases refusal env k cap other.length with
  | some e => simp
  | none => simp [holding_inj]

theorem of_enlarge_eq_ok {new : List (Word k)} {up : Bool} {d : Column k} {u : Unit}
    (h : enlarge env words new cap flag up = .ok u d) : d.words = new ∧ d.flag = up := by
  unfold enlarge at h
  split at h
  case h_1 => cases h
  case h_2 =>
    cases h
    exact ⟨words_holding, rfl⟩

section

variable (length : words.length ≤ cap) (fits : cap ≤ maxSize)
include length fits

theorem run_addWord (w : Word k) :
    (addWord env w).run (holding words cap flag) =
      enlarge env words (words ++ [w]) cap flag flag := by
  have spare : words.length < capacityFor cap (words.length + 1) :=
    le_capacityFor cap (words.length + 1)
  simp only [addWord, enlarge, EStateM.run_bind, run_reserveOne length fits, List.length_append,
    List.length_singleton]
  cases refusal env k cap (words.length + 1) with
  | none => simp [push_holding spare]
  | some e => rfl

/-- Edits that make room and then store what they made room for. -/
theorem run_reserve_bind {n : Nat} {new : List (Word k)} {raised : Bool} (e : Edit k Unit)
    (size : new.length = words.length + n)
    (store : ∀ grown, new.length ≤ grown → grown ≤ maxSize →
      e.run (holding words grown flag) = .ok () (holding new grown raised)) :
    (reserve env n >>= fun _ => e).run (holding words cap flag) =
      enlarge env words new cap flag raised := by
  rw [EStateM.run_bind, run_reserve length fits, enlarge, size]
  cases room : refusal env k cap (words.length + n) with
  | none =>
    have enough := le_capacityFor cap (words.length + n)
    exact store _ (by omega) (capacityFor_le room fits)
  | some e => rfl

theorem run_addWords (more : List (Word k)) :
    (addWords env more).run (holding words cap flag) =
      enlarge env words (words ++ more) cap flag flag := by
  refine run_reserve_bind length fits _ (by simp) fun grown enough _ => ?_
  rw [List.length_append] at enough
  simp [pushAll_holding enough]

theorem run_addCopies (n : Nat) (w : Word k) :
    (addCopies env n w).run (holding words cap flag) =
      enlarge env words (words ++ List.replicate n w) cap flag flag := by
  by_cases none : n = 0
  · simp [addCopies, enlarge, none, refusal_of_le length fits, capacityFor_of_le length]
  have copies : Array.replicate n w = (List.replicate n w).toArray := by simp
  simp only [addCopies, ne_eq, none, not_false_iff, if_true]
  refine run_reserve_bind length fits _ (by simp) fun grown enough _ => ?_
  rw [List.length_append] at enough
  simp only [EStateM.run_modify, copies, pushAll_holding enough]

theorem run_insertWord (i : Nat) (w : Word k) :
    (insertWord env i w).run (holding words cap flag) =
      if words.length < i then
        .error (.insertOutOfBounds k i words.length) (holding words cap flag)
      else enlarge env words (words.take i ++ w :: words.drop i) cap flag flag := by
  by_cases outside : words.length < i
  · simp [insertWord, outside]
  have inside : i ≤ words.length := by omega
  have one : (words.take i ++ w :: words.drop i).length = words.length + 1 := by
    simp; omega
  have spare : words.length < capacityFor cap (words.length + 1) :=
    le_capacityFor cap (words.length + 1)
  simp only [insertWord, outside, enlarge, one, EStateM.run_bind, EStateM.run_get, size_holding,
    if_false, run_reserveOne length fits]
  cases refusal env k cap (words.length + 1) with
  | none =>
    have rotated := exchange_concat w inside
    simp [push_holding spare, swapBlocks_holding inside (Nat.le_succ _), rotated]
  | some e => rfl

end

/-- Words are added to a column when there is room for all of them. -/
theorem run_addWords_eq_ok_iff {d e : Column k} (formed : d.WellFormed) :
    (addWords env words).run d = .ok () e ↔
      d.HasRoom env words.length ∧
        e = holding (d.words ++ words) (capacityFor d.capacity (d.size + words.length)) d.flag := by
  have added : (addWords env words).run (holding d.words d.capacity d.flag) = _ :=
    run_addWords formed.length_words_le_capacity formed.capacity_le words
  rw [formed.holding_eq] at added
  rw [added, ← refusal_eq_none_iff, enlarge, List.length_append, formed.length_words]
  cases refusal env k d.capacity (d.size + words.length) with
  | some e => simp
  | none => simp [eq_comm]

/-! ## Removing -/

section

variable (length : words.length ≤ cap)
include length

theorem run_removeWord (i : Nat) :
    (removeWord i).run (holding words cap flag) =
      match words[i]? with
      | some w => .ok w (holding (words.eraseIdx i) cap flag)
      | none => .error (.indexOutOfBounds k i words.length) (holding words cap flag) := by
  by_cases h : i < words.length
  · have cut := take_exchange_length (i := i) (n := 1) (l := words) (by omega)
    have same := length_exchange (Nat.le_succ i) h (Nat.le_refl words.length)
    simp [removeWord, h, swapBlocks_holding (Nat.le_succ i) h, truncate_holding, same, length, cut,
      List.eraseIdx_eq_take_drop_succ]
  · simp [removeWord, h]

theorem run_removeRange (start stop : Nat) :
    (removeRange start stop).run (holding words cap flag) =
      if words.length < stop then
        .error (.indexOutOfBounds k stop words.length) (holding words cap flag)
      else if stop < start then
        .error (.invalidArgument (.removeRangeReversed k start stop)) (holding words cap flag)
      else .ok () (holding (words.take start ++ words.drop stop) cap flag) := by
  by_cases outside : words.length < stop
  · simp [removeRange, outside]
  by_cases reversed : stop < start
  · simp [removeRange, outside, reversed]
  obtain ⟨n, rfl⟩ : ∃ n, stop = start + n := ⟨stop - start, by omega⟩
  have within : start + n ≤ words.length := by omega
  have cut := take_exchange_length within
  have same := length_exchange (Nat.le_add_right start n) within (Nat.le_refl words.length)
  simp [removeRange, outside, swapBlocks_holding, truncate_holding, within, same, length, cut]

theorem run_clear : clear.run (holding words cap flag) = .ok () (holding [] cap flag) := by
  simp [clear, truncate_holding (Nat.zero_le _) length]

theorem run_justKeep (mask : List Bool) :
    (justKeep mask).run (holding words cap flag) =
      .ok () (holding (selected mask words) cap flag) := by
  obtain ⟨others, same, compacted⟩ := compact_holding mask words cap flag
  have held : (⟨(holding (selected mask words ++ others) cap flag).slots, words.length, flag⟩ :
      Column k) = holding (selected mask words ++ others) cap flag := by
    rw [← same]
    rfl
  rw [justKeep, EStateM.run_modify, size_holding, compacted]
  simp only [flag_holding]
  rw [held, truncate_holding (by simp) (by omega), List.take_left]

end

/-! ## Rearranging -/

theorem run_moveRange (first last destination : Nat) :
    (moveRange first last destination).run (holding words cap flag) =
      if words.length < last then
        .error (.indexOutOfBounds k last words.length) (holding words cap flag)
      else if words.length < destination then
        .error (.indexOutOfBounds k destination words.length) (holding words cap flag)
      else if last < first then
        .error (.invalidArgument (.moveRangeReversed k first last)) (holding words cap flag)
      else if first < destination ∧ destination < last then
        .error (.invalidArgument (.moveRangeInside k destination first last))
          (holding words cap flag)
      else .ok () (holding (moved first last destination words) cap flag) := by
  by_cases outside : words.length < last
  · simp [moveRange, outside]
  by_cases beyond : words.length < destination
  · simp [moveRange, outside, beyond]
  by_cases reversed : last < first
  · simp [moveRange, outside, beyond, reversed]
  by_cases inside : first < destination ∧ destination < last
  · simp [moveRange, outside, beyond, reversed, inside]
  simp only [moveRange, moved, outside, beyond, reversed, inside, EStateM.run_bind,
    EStateM.run_get, size_holding, if_false, Edit.run_ite, EStateM.run_modify]
  split
  · rw [swapBlocks_holding (by omega) (by omega) (by omega)]
  · split
    · rw [swapBlocks_holding (by omega) (by omega) (by omega)]
    · rfl

theorem run_reorder (length : words.length ≤ cap) (fits : cap ≤ maxSize) (rank : List Nat) :
    (reorder env rank).run (holding words cap flag) =
      if rank.length ≠ words.length then
        .error (.invalidArgument (.rankLength k rank.length words.length)) (holding words cap flag)
      else
        match rank.find? (words.length ≤ ·) with
        | some bad => .error (.indexOutOfBounds k bad words.length) (holding words cap flag)
        | none =>
          match checkMemory env k cap with
          | .error e => .error e (holding words cap flag)
          | .ok () =>
            .ok () (holding (rank.map fun i => (words[i]?).getD (Word.zero k)) cap flag) := by
  by_cases wrong : rank.length ≠ words.length
  · simp [reorder, wrong]
  have same : rank.length = words.length := by omega
  -- The size also stands inside the decision procedure of the search, where no rewriting goes.
  have search : rank.find? ((holding words cap flag).size ≤ ·) = rank.find? (words.length ≤ ·) :=
    rfl
  simp only [reorder, EStateM.run_bind, EStateM.run_get]
  rw [search]
  cases rank.find? (words.length ≤ ·) with
  | some i => simp [wrong]
  | none =>
    simp only [size_holding, wrong, if_false, capacity_holding length, EStateM.run_bind,
      Edit.run_liftM, allocate_of_le fits]
    cases checkMemory env k cap with
    | error e => simp
    | ok =>
      simp only [slot_holding]
      simp [holding, same]

theorem run_copyWithin (source target : Nat) :
    (copyWithin source target).run (holding words cap flag) =
      match words[source]? with
      | none => .error (.indexOutOfBounds k source words.length) (holding words cap flag)
      | some w =>
        if target < words.length then .ok () (holding (words.set target w) cap flag)
        else .error (.indexOutOfBounds k target words.length) (holding words cap flag) := by
  simp only [copyWithin, EStateM.run_bind, EStateM.run_get, Edit.run_liftM, wordAt_holding]
  cases words[source]? with
  | none => rfl
  | some w => exact run_setWord target w

theorem run_reverse (length : words.length ≤ cap) :
    reverse.run (holding words cap flag) = .ok () (holding words.reverse cap flag) := by
  have same : words.reverse.length ≤ words.length := by simp
  simp [reverse, replace_holding same length]

theorem run_sort (length : words.length ≤ cap) :
    (sort env).run (holding words cap flag) =
      .ok () (holding (Word.sortWords (env.sorter (env.parallelSortThreshold ≤ words.length)) words) cap
        flag) := by
  have same := Word.length_sortWords (env.sorter (env.parallelSortThreshold ≤ words.length)) words
  rw [sort, EStateM.run_modify, words_holding]
  exact congrArg _ (replace_holding (Nat.le_of_eq same) length)

/-! ## Changing words -/

theorem run_mapWords (length : words.length ≤ cap) (f : Word k → Word k) :
    (modify (mapWords f) : Edit k Unit).run (holding words cap flag) =
      .ok () (holding (words.map f) cap flag) := by
  simp [mapWords_holding f length]

end Columnar.Column

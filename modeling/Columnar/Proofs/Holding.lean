import Columnar.Column.Edit

/-!
# Columns by their elements

`Column.holding words capacity flag` is the column with the given elements and zero words in all
spare slots. A well-formed column is the one that holds its own elements, so every step on a buffer
is described by what it does to a list; the spare slots need no mention after that.
-/

namespace Columnar

variable {α : Type}

/-- Exchanges the adjacent blocks `[low, middle)` and `[middle, high)` of a list. -/
def exchange (low middle high : Nat) (l : List α) : List α :=
  l.take low ++ (l.take high).drop middle ++ (l.take middle).drop low ++ l.drop high

theorem length_exchange {low middle high : Nat} {l : List α} (h₁ : low ≤ middle)
    (h₂ : middle ≤ high) (h₃ : high ≤ l.length) :
    (exchange low middle high l).length = l.length := by
  simp [exchange]
  omega

/-- Rotating the block behind `i` to the left by `n` and cutting `n` elements off the end removes
the `n` elements at `i`. -/
theorem take_exchange_length {i n : Nat} {l : List α} (h : i + n ≤ l.length) :
    (exchange i (i + n) l.length l).take (l.length - n) = l.take i ++ l.drop (i + n) := by
  have front : (l.take i ++ l.drop (i + n)).length = l.length - n := by grind
  rw [exchange, List.take_length, List.drop_length, List.append_nil, ← front, List.take_left]

/-- Rotating a last element to `i` inserts it there. -/
theorem exchange_concat {i : Nat} {l : List α} (a : α) (h : i ≤ l.length) :
    exchange i l.length (l.length + 1) (l ++ [a]) = l.take i ++ a :: l.drop i := by
  have front : (l ++ [a]).take i = l.take i := List.take_append_of_le_length h
  have back : (l ++ [a]).drop (l.length + 1) = [] := List.drop_of_length_le (by simp)
  have whole : (l ++ [a]).take (l.length + 1) = l ++ [a] := List.take_of_length_le (by simp)
  simp [exchange, front, back, whole]

namespace Column

variable {k : Kind}

/-- The column with the given elements and zero words in the slots after them. -/
def holding (words : List (Word k)) (capacity : Nat) (flag : Bool) : Column k :=
  ⟨(words ++ List.replicate (capacity - words.length) (Word.zero k)).toArray, words.length, flag⟩

/-- What holds of every column that a program can get hold of. -/
structure WellFormed (c : Column k) : Prop where
  size_le : c.size ≤ c.capacity
  capacity_le : c.capacity ≤ maxSize
  spare : ∀ i (_ : i < c.slots.size), c.size ≤ i → c.slots[i] = Word.zero k
  raised : k.missingFixed = true → c.flag = true

section Holding

variable {words : List (Word k)} {cap : Nat} {flag : Bool}

@[simp] theorem size_holding : (holding words cap flag).size = words.length := rfl

@[simp] theorem flag_holding : (holding words cap flag).flag = flag := rfl

@[simp] theorem words_holding : (holding words cap flag).words = words := by
  simp [Column.words, holding]

theorem holding_inj {new : List (Word k)} {up : Bool} :
    holding words cap flag = holding new cap up ↔ words = new ∧ flag = up := by
  constructor
  · intro same
    have elements := congrArg Column.words same
    rw [words_holding, words_holding] at elements
    exact ⟨elements, congrArg Column.flag same⟩
  · rintro ⟨rfl, rfl⟩
    rfl

theorem capacity_holding (h : words.length ≤ cap) : (holding words cap flag).capacity = cap := by
  simp [capacity, holding]
  omega

theorem holding_eq_of_capacity {c : Column k} (size : c.size ≤ c.capacity)
    (spare : ∀ i (_ : i < c.slots.size), c.size ≤ i → c.slots[i] = Word.zero k) :
    holding c.words c.capacity c.flag = c := by
  obtain ⟨slots, n, flag⟩ := c
  simp only [capacity] at size spare
  have length : (slots.toList.take n).length = n := by grind
  have zeros : slots.toList.drop n = List.replicate (slots.size - n) (Word.zero k) := by
    apply List.ext_getElem (by simp)
    intro i hi _
    simp only [List.length_drop, Array.length_toList] at hi
    simp [spare (n + i) (by omega) (by omega)]
  have whole : slots.toList.take n ++ List.replicate (slots.size - n) (Word.zero k) =
      slots.toList := by
    rw [← zeros, List.take_append_drop]
  simp [holding, Column.words, capacity, length, whole]

theorem WellFormed.holding_eq {c : Column k} (h : c.WellFormed) :
    holding c.words c.capacity c.flag = c :=
  holding_eq_of_capacity h.size_le h.spare

theorem WellFormed.length_words {c : Column k} (h : c.WellFormed) : c.words.length = c.size := by
  rw [← h.holding_eq]
  simp

theorem WellFormed.length_words_le_capacity {c : Column k} (h : c.WellFormed) :
    c.words.length ≤ c.capacity := by
  rw [h.length_words]
  exact h.size_le

theorem WellFormed.size_le_maxSize {c : Column k} (h : c.WellFormed) : c.size ≤ maxSize :=
  Nat.le_trans h.size_le h.capacity_le

theorem WellFormed.length_words_le {c : Column k} (h : c.WellFormed) :
    c.words.length ≤ maxSize := by
  rw [h.length_words]
  exact h.size_le_maxSize

/-- A column that holds its elements is well-formed within the bounds on capacity and flag. -/
theorem wellFormed_holding (length : words.length ≤ cap) (cap_le : cap ≤ maxSize)
    (raised : k.missingFixed = true → flag = true) : (holding words cap flag).WellFormed where
  size_le := by rw [capacity_holding length]; exact length
  capacity_le := by rw [capacity_holding length]; exact cap_le
  spare i _ hi := by
    simp only [size_holding] at hi
    simp [holding, List.getElem_append_right hi]
  raised := raised

theorem wellFormed_iff {c : Column k} :
    c.WellFormed ↔ ∃ words cap flag, words.length ≤ cap ∧ cap ≤ maxSize ∧
      (k.missingFixed = true → flag = true) ∧ holding words cap flag = c := by
  constructor
  · intro h
    exact ⟨c.words, c.capacity, c.flag, h.length_words_le_capacity, h.capacity_le, h.raised,
      h.holding_eq⟩
  · rintro ⟨words, cap, flag, length, fits, raised, rfl⟩
    exact wellFormed_holding length fits raised

/-! ## Steps on the buffer -/

@[simp] theorem wordAt_holding (i : Nat) :
    (holding words cap flag).wordAt i =
      match words[i]? with
      | some w => .ok w
      | none => .error (.indexOutOfBounds k i words.length) := by
  by_cases h : i < words.length
  · have inside : i < words.length + (cap - words.length) := by omega
    simp [wordAt, holding, h, inside, List.getElem_append_left]
  · simp [wordAt, h]

theorem wordAt_eq_ok_iff {c : Column k} {i : Nat} {w : Word k} (formed : c.WellFormed) :
    c.wordAt i = .ok w ↔ c.words[i]? = some w := by
  rw [← formed.holding_eq, wordAt_holding, words_holding]
  cases c.words[i]? <;> simp

/-- Spare slots and slots that do not exist read as zero. -/
theorem slot_holding (i : Nat) :
    (holding words cap flag).slots.getD i (Word.zero k) = (words[i]?).getD (Word.zero k) := by
  by_cases inside : i < words.length
  · simp [holding, List.getElem?_append_left inside]
  · have beyond : words.length ≤ i := Nat.le_of_not_lt inside
    simp only [holding, Array.getD_eq_getD_getElem?, List.getElem?_toArray,
      List.getElem?_append_right beyond, List.getElem?_replicate, List.getElem?_eq_none beyond]
    split <;> rfl

@[simp] theorem withFlag_holding (up : Bool) :
    (holding words cap flag).withFlag up = holding words cap (flag || up) := rfl

@[simp] theorem extract_holding :
    (holding words cap flag).slots.extract 0 words.length = words.toArray := by
  simp [holding]

theorem moveInto_holding {grown : Nat} :
    (holding words cap flag).moveInto (Array.replicate grown (Word.zero k)) =
      holding words grown flag := by
  simp [holding, moveInto]

theorem put_holding {i : Nat} (h : i < words.length) (w : Word k) :
    (holding words cap flag).put i w = holding (words.set i w) cap flag := by
  simp [holding, put, List.set_append_left _ _ h]

theorem pushAll_holding {more : List (Word k)} (h : words.length + more.length ≤ cap) :
    (holding words cap flag).pushAll more.toArray = holding (words ++ more) cap flag := by
  have spare : min (words.length + (cap - words.length) - (words.length + more.length))
      (cap - words.length - more.length) = cap - (words.length + more.length) := by omega
  simp [holding, pushAll, spare]

theorem push_holding (h : words.length < cap) (w : Word k) :
    (holding words cap flag).push w = holding (words ++ [w]) cap flag := by
  obtain ⟨spare, rfl⟩ : ∃ n, cap = words.length + (n + 1) := ⟨cap - words.length - 1, by omega⟩
  have fewer : words.length + (spare + 1) - (words.length + 1) = spare := by omega
  simp [holding, push, fewer, List.replicate_succ]

theorem swapBlocks_holding {low middle high : Nat} (h₁ : low ≤ middle) (h₂ : middle ≤ high)
    (h₃ : high ≤ words.length) :
    (holding words cap flag).swapBlocks low middle high =
      holding (exchange low middle high words) cap flag := by
  have length := length_exchange h₁ h₂ h₃
  generalize zeros : List.replicate (cap - words.length) (Word.zero k) = spare
  have front : (words ++ spare).take low = words.take low :=
    List.take_append_of_le_length (by omega)
  have left : ((words ++ spare).drop low).take (middle - low) = (words.take middle).drop low := by
    rw [List.drop_append_of_le_length (by omega), List.drop_take,
      List.take_append_of_le_length (by grind)]
  have right : ((words ++ spare).drop middle).take (high - middle) =
      (words.take high).drop middle := by
    rw [List.drop_append_of_le_length (by omega), List.drop_take,
      List.take_append_of_le_length (by grind)]
  have back : (words ++ spare).drop high = words.drop high ++ spare :=
    List.drop_append_of_le_length h₃
  have rest : (words.drop high ++ spare).take (words.length + spare.length - high) =
      words.drop high ++ spare := List.take_of_length_le (by grind)
  simp only [holding, length, zeros]
  simp [swapBlocks, exchange, front, left, right, back, rest]

theorem truncate_holding {n : Nat} (h : n ≤ words.length) (fits : words.length ≤ cap) :
    (holding words cap flag).truncate n = holding (words.take n) cap flag := by
  have zeros : words.length - n + (cap - words.length) = cap - n := by omega
  simp [holding, truncate, List.take_append_of_le_length h, Nat.min_eq_left h, zeros]

theorem replace_holding {new : List (Word k)} (h : new.length ≤ words.length)
    (fits : words.length ≤ cap) :
    (holding words cap flag).replace new.toArray = holding new cap flag := by
  have zeros : words.length - new.length + (cap - words.length) = cap - new.length := by omega
  simp [holding, replace, zeros]

theorem mapWords_holding (f : Word k → Word k) (fits : words.length ≤ cap) :
    (holding words cap flag).mapWords f = holding (words.map f) cap flag := by
  rw [mapWords, size_holding, extract_holding, List.map_toArray,
    replace_holding (by simp) fits]

end Holding

end Column

end Columnar

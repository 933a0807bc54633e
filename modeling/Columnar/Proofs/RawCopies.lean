import Columnar.Proofs.IntegerIntake

/-!
# Raw copies

A raw copy adds the stored values of a column, whatever they mean there. So the flag of the source
has no part in it, a column of the same kind is copied word for word, and among kinds of whole
numbers every value that the target can hold arrives as it is read in the source.

## Main definitions

* `Column.AppendedRaw`: how a column differs from another one after a raw copy.
-/

namespace Columnar.Column

variable {k l : Kind} {env : Environment} {c d : Column k} {s : Column l}

/-! ## Single words -/

/-- A word is copied bit by bit within its kind. -/
theorem stored_convertRawWord_self (w : Word k) : stored (convertRawWord k w) = w := by
  simp [convertRawWord, Word.cross, stored]

/-- The word for a stored whole number stands for this number. -/
theorem represents_convertRawWord (source : l.IsIntegral) (target : k.IsIntegral) (w : Word l) :
    (stored (convertRawWord k w)).Represents w.toInt := by
  by_cases same : l = k
  · subst same
    obtain ⟨v, value, inside⟩ := source.exists_toInt w
    rw [stored_convertRawWord_self]
    exact ⟨fun n here _ => here, fun lacks => absurd inside (lacks v value)⟩
  · have crossed : convertRawWord k w = w.toInt.bind (Word.ofInt k) := by
      rw [convertRawWord, Word.cross_of_ne same, route_of_integral source target same]
    rw [crossed]
    exact Word.represents_stored target w.toInt

/-! ## Columns -/

/-- The words of `s` that a raw copy adds to a column of kind `k`. -/
def rawWords (k : Kind) (s : Column l) : List (Word k) :=
  s.words.map fun w => stored (convertRawWord k w)

/-- What the source stores is all that a raw copy depends on. -/
theorem run_appendRaw_eq (formed : c.WellFormed) (source : s.WellFormed) :
    (appendRaw env ⟨s⟩).run c =
      enlarge env c.words (c.words ++ rawWords k s) c.capacity c.flag c.flag := by
  have whole : s.range 0 s.size = .ok s.words := by
    rw [range, if_pos (by omega), List.drop_zero, ← source.length_words, List.take_length]
  have added : (appendRaw env ⟨s⟩).run (holding c.words c.capacity c.flag) = _ :=
    run_appendRaw formed.length_words_le_capacity formed.capacity_le ⟨s⟩
  rw [formed.holding_eq] at added
  rw [added, whole]
  rfl

/-- The stored values of `s` were added to a column, one word for each, and nothing else happened
to its elements and its flag. -/
structure AppendedRaw (c d : Column k) (s : Column l) : Prop where
  earlier : d.words.take c.size = c.words
  size : d.size = c.size + s.size
  flag : d.flag = c.flag
  /-- A column of the same kind is copied bit by bit. -/
  copied : ∀ same, (⟨s⟩ : AnyColumn).as? k = some same → d.words = c.words ++ same.words
  /-- A whole number that the target lacks becomes the sentinel. -/
  integers : l.IsIntegral → k.IsIntegral → ∀ j, j < s.size →
    ∃ v, s.rawIntegerAt j = .ok (some v) ∧
      (k.InRange v → d.rawIntegerAt (c.size + j) = .ok (some v)) ∧
      (¬ k.InRange v → d.wordAt (c.size + j) = .ok (Word.sentinel k))

theorem rawIntegerAt_of_getElem? {i : Nat} {w : Word k} (formed : c.WellFormed)
    (here : c.words[i]? = some w) : c.rawIntegerAt i = .ok w.toInt := by
  rw [rawIntegerAt, (wordAt_eq_ok_iff formed).mpr here]
  rfl

theorem rawWords_self (s : Column k) : rawWords k s = s.words := by
  simp [rawWords, stored_convertRawWord_self]

theorem appendedRaw_of_words (formed : c.WellFormed) (source : s.WellFormed) (after : d.WellFormed)
    (held : d.words = c.words ++ rawWords k s) (flag : d.flag = c.flag) : AppendedRaw c d s where
  earlier := by
    rw [held, ← formed.length_words, List.take_left]
  size := by
    rw [← after.length_words, held, List.length_append, rawWords, List.length_map,
      formed.length_words, source.length_words]
  flag := flag
  copied same here := by
    obtain ⟨rfl⟩ := AnyColumn.as?_eq_some_iff.mp here
    rw [held, rawWords_self]
  integers whole target j inside := by
    rw [← source.length_words] at inside
    have here : s.words[j]? = some s.words[j] := List.getElem?_eq_getElem inside
    have there : d.words[c.size + j]? = some (stored (convertRawWord k s.words[j])) := by
      rw [held, ← formed.length_words, List.getElem?_append_right (by omega),
        Nat.add_sub_cancel_left, rawWords, List.getElem?_map, here]
      rfl
    have represents := represents_convertRawWord whole target s.words[j]
    obtain ⟨v, value, -⟩ := whole.exists_toInt s.words[j]
    rw [value] at represents
    refine ⟨v, ?_, fun fits => ?_, fun lacks => ?_⟩
    · rw [rawIntegerAt_of_getElem? source here, value]
    · rw [rawIntegerAt_of_getElem? after there, represents.held v rfl fits]
    · refine (wordAt_eq_ok_iff after).mpr (there.trans (congrArg some (represents.lacking ?_)))
      rintro n ⟨⟩
      exact lacks

/-- A raw copy needs nothing but room. It adds the stored values of the source, as far as the target
can hold them, and has the same result for every source that stores the same words, whether its
flag is up or not. -/
theorem Reachable.appends_raw (target : Reachable env c) (source : Reachable env s) :
    (c.HasRoom env s.size → ∃ d, (appendRaw env ⟨s⟩).run c = .ok () d ∧ AppendedRaw c d s) ∧
      (¬ c.HasRoom env s.size → ∃ e, (appendRaw env ⟨s⟩).run c = .error e c) ∧
      ∀ t : Column l, Reachable env t → t.words = s.words →
        (appendRaw env ⟨t⟩).run c = (appendRaw env ⟨s⟩).run c := by
  have formed := target.wellFormed
  have sound := source.wellFormed
  have added : (appendRaw env ⟨s⟩).run c = _ := run_appendRaw_eq formed sound
  have size : (c.words ++ rawWords k s).length = c.size + s.size := by
    rw [List.length_append, rawWords, List.length_map, formed.length_words, sound.length_words]
  refine ⟨fun room => ?_, fun full => ?_, fun t other same => ?_⟩
  · rw [enlarge, size, refusal_eq_none_iff.mpr room] at added
    have after := target.of_run_eq_ok (.appendRaw ⟨s⟩) rfl added
    exact ⟨_, added, appendedRaw_of_words formed sound after.wellFormed words_holding rfl⟩
  · rw [enlarge, size] at added
    cases refused : refusal env k c.capacity (c.size + s.size) with
    | none => exact absurd (refusal_eq_none_iff.mp refused) full
    | some e =>
      rw [refused, formed.holding_eq] at added
      exact ⟨e, added⟩
  · rw [added, run_appendRaw_eq formed other.wellFormed, rawWords, rawWords, same]

/-- The greatest byte is copied as a number although it is missing in its column, with the same
result as from a column in which it is not; a negative one is the sentinel among unsigned bytes. -/
theorem raw_copy_of_missing_byte :
    let c : Column .ubyte := ofSlots #[1#8] 1
    let s : Column .byte := ofSlots #[127#8, -5#8] 2
    ∃ d, (appendRaw {} ⟨s.withFlag true⟩).run c = .ok () d ∧ d.flag = false ∧ d.size = 3 ∧
      d.rawIntegerAt 1 = .ok (some 127) ∧ d.wordAt 2 = .ok 255#8 ∧
      (appendRaw {} ⟨s⟩).run c = .ok () d := by
  intro c s
  have target : Reachable {} c := .ofWords [1#8] rfl
  have source : Reachable {} s := .ofWords [127#8, -5#8] rfl
  have flagged : Reachable {} (s.withFlag true) := .operated .raiseFlag source
  have room : c.HasRoom {} 2 := .of_size_le (by decide)
  obtain ⟨copies, -, same⟩ := Reachable.appends_raw target flagged
  obtain ⟨d, copied, appended⟩ := copies room
  obtain ⟨v, first, held, -⟩ := appended.integers (.inl rfl) (.inl rfl) 0 (by decide)
  obtain ⟨u, second, -, lacking⟩ := appended.integers (.inl rfl) (.inl rfl) 1 (by decide)
  cases first
  cases second
  exact ⟨d, copied, appended.flag, appended.size, held (by decide), lacking (by decide),
    (same s source rfl).trans copied⟩

end Columnar.Column

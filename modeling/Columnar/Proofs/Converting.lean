import Columnar.Proofs.Ingesting

/-!
# Columns made of converted values

A column that is converted to another kind, or read from text, is a new one without spare slots,
which holds the converted values. Only its buffer can be refused: nothing grows while the values are
stored in it, and no value is an error.
-/

namespace Columnar

variable {k : Kind} {env : Environment}

namespace Column

theorem withCapacity_eq {count : Nat} (fits : count ≤ maxSize) :
    withCapacity env k count =
      match checkMemory env k count with
      | .ok () => .ok (holding [] count k.missingFixed)
      | .error e => .error e := by
  have zeros : ofSlots (Array.replicate count (Word.zero k)) 0 =
      holding [] count k.missingFixed := by simp [ofSlots, holding]
  rw [withCapacity, allocate_of_le fits]
  cases checkMemory env k count with
  | error e => rfl
  | ok => exact congrArg Except.ok zeros

/-- The column without spare slots that holds converted values. Those without a word of their own
are missing. -/
def taking (converted : List (Option (Word k))) : Column k :=
  holding (converted.map stored) converted.length (k.missingFixed || converted.any (·.isNone))

section

variable {s : String} {converted : List (Option (Word k))}
  (items : (Text.splitCsv s).map (Word.ofText k) = converted) (fits : converted.length ≤ maxSize)
include items fits

/-- Reading items from text fails only for the memory of the new buffer. Otherwise it yields the
column of the words that the items have. -/
theorem ofCsv_eq :
    ofCsv env k s =
      match checkMemory env k converted.length with
      | .ok () => .ok (taking converted)
      | .error e => .error e := by
  subst items
  rw [List.length_map] at fits
  rw [ofCsv, withCapacity_eq fits, List.length_map]
  cases checkMemory env k (Text.splitCsv s).length with
  | error e => rfl
  | ok =>
    refine build_eq_ok_iff.mpr ((run_forM_addText _ fits (by simp)).trans ?_)
    simp [taking, Function.comp_def]

theorem ofCsv_eq_error_iff :
    (∃ e, ofCsv env k s = .error e) ↔ env.Refuses k converted.length := by
  rw [ofCsv_eq items fits, ← checkMemory_eq_error_iff]
  cases checkMemory env k converted.length <;> simp

theorem eq_of_ofCsv {d : Column k} (made : ofCsv env k s = .ok d) : d = taking converted := by
  rw [ofCsv_eq items fits] at made
  split at made
  · exact (Except.ok.inj made).symm
  · cases made

end

end Column

namespace AnyColumn

variable {a b : AnyColumn}

theorem as?_of_ne (different : a.kind ≠ k) : a.as? k = none := dif_neg different

/-- The column of kind `k` that holds the converted elements of any column. -/
def converted (a : AnyColumn) (k : Kind) : Column k :=
  Column.holding (a.column.words.map fun w => Column.stored (a.column.convertWord k w))
    a.column.size (k.missingFixed || a.column.words.any fun w => (a.column.convertWord k w).isNone)

theorem converted_eq_taking (formed : a.column.WellFormed) :
    a.converted k = Column.taking (a.column.words.map (a.column.convertWord k)) := by
  simp [converted, Column.taking, formed.length_words, Function.comp_def]

/-- Converting to another kind fails only for the memory of the new buffer. -/
theorem convertTo_of_ne (different : k ≠ a.kind) (formed : a.column.WellFormed) :
    a.convertTo env k =
      match Column.checkMemory env k a.column.size with
      | .ok () => .ok ⟨a.converted k⟩
      | .error e => .error e := by
  have elements := formed.length_words
  have fits := formed.size_le_maxSize
  have empty : ([] : List (Word k)).length ≤ a.column.size := Nat.zero_le _
  have whole : a.column.range 0 a.column.size = .ok a.column.words := by
    rw [Column.range, if_pos (by omega), List.drop_zero, ← elements, List.take_length]
  have appended : (Column.append env a).run (Column.holding [] a.column.size k.missingFixed) =
      .ok () (a.converted k) := by
    rw [Column.run_append empty fits, as?_of_ne different.symm]
    dsimp only
    rw [Column.run_addFrom empty fits, whole]
    dsimp only
    rw [List.nil_append, Column.enlarge_of_le (by simp [elements]) fits, List.map_map,
      List.any_map]
    rfl
  rw [convertTo, if_neg different, Column.ofAny, Column.withCapacity_eq fits]
  cases Column.checkMemory env k a.column.size with
  | error e => rfl
  | ok =>
    have built := Column.build_eq_ok_iff.mpr appended
    exact congrArg (· >>= fun c => pure (⟨c⟩ : AnyColumn)) built

theorem convertTo_self (a : AnyColumn) : a.convertTo env a.kind = .ok a := if_pos rfl

/-- A conversion is refused when the kind changes and there is no memory for the new
buffer. -/
theorem convertTo_eq_error_iff (formed : a.column.WellFormed) :
    (∃ e, a.convertTo env k = .error e) ↔ k ≠ a.kind ∧ env.Refuses k a.column.size := by
  by_cases same : k = a.kind
  · subst same
    simp [convertTo_self]
  · rw [convertTo_of_ne same formed, ← Column.checkMemory_eq_error_iff]
    cases Column.checkMemory env k a.column.size <;> simp [same]

end AnyColumn

end Columnar

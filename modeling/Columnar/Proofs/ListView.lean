import Columnar.Proofs.Flag

/-!
# The buffer as a list

To a caller a column is the list of its elements. `Operation.onList` says what each operation on the
buffer is as an operation on that list, and which arguments it does not take; rotations, spare slots
and growth do not show. The one thing that a list does not tell is that memory may be refused, which
`Operation.refusal` adds.
-/

namespace Columnar

variable {k : Kind} {env : Environment}

namespace Operation

/-- How many elements an operation on the buffer asks room for in all. -/
def requested (c : Column k) : Operation k → Nat
  | addWord _ => c.size + 1
  | addWords more => c.size + more.length
  | addWordCopies n _ => c.size + n
  | insertWord _ _ => c.size + 1
  | ensureCapacity minimum => minimum
  | _ => 0

/-- Why an operation on the buffer is refused memory, if it is. Elements that are added need room,
and elements that are rearranged pass through a second buffer of the same capacity. -/
def refusal (env : Environment) (c : Column k) : Operation k → Option ColumnError
  | addWord _ => Column.refusal env k c.capacity (c.size + 1)
  | addWords more => Column.refusal env k c.capacity (c.size + more.length)
  | addWordCopies n _ => Column.refusal env k c.capacity (c.size + n)
  | insertWord _ _ => Column.refusal env k c.capacity (c.size + 1)
  | ensureCapacity minimum => Column.refusal env k c.capacity minimum
  | reorder _ =>
    match Column.checkMemory env k c.capacity with
    | .ok () => none
    | .error e => some e
  | _ => none

theorem run_done (e : Edit k Unit) (c : Column k) :
    (done e).run c =
      match e.run c with
      | .ok _ d => .ok .done d
      | .error err d => .error err d := by
  rw [done_eq_map, Edit.run_map]
  cases e.run c <;> rfl

/-! ## One operation -/

section

variable {op : Operation k} {e : Edit k Unit} {words new : List (Word k)} {cap : Nat} {flag : Bool}
  {effect : Except ColumnError (Answer k × List (Word k))}

variable (length : words.length ≤ cap)
include length

variable (fits : cap ≤ Column.maxSize)
include fits

end

end Operation

namespace Column

/-! ## Rearranging twice -/

theorem length_everyNth_le {α : Type} (stride : Nat) (l : List α) :
    (everyNth stride l).length ≤ l.length := by
  fun_induction everyNth stride l with
  | case1 => simp
  | case2 a rest ih =>
    have fewer : (rest.drop stride).length ≤ rest.length := by simp
    simp only [List.length_cons]
    omega

/-- A stride has to be positive; nothing else about a subset can fail. -/
theorem subset_eq {c : Column k} (formed : c.WellFormed) (start stride stop : Nat) :
    c.subset start stride stop =
      if stride = 0 then .error (.invalidArgument (.strideZero k))
      else
        let picked := everyNth (stride - 1) ((c.words.take (stop + 1)).drop start)
        .ok ((ofSlots picked.toArray picked.length).withFlag c.flag) := by
  unfold subset
  split
  · rfl
  have fewer := length_everyNth_le (stride - 1) ((c.words.take (stop + 1)).drop start)
  have elements : ((c.words.take (stop + 1)).drop start).length ≤ c.size := by
    rw [← formed.length_words, List.length_drop, List.length_take]
    omega
  have small := formed.size_le_maxSize
  rw [ofWords, checkSize_eq_ok_iff.mpr (by omega)]
  rfl

end Column

end Columnar

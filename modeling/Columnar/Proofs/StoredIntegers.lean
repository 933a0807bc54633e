import Mathlib.Data.List.Forall2
import Columnar.Proofs.ScalarCopies

/-!
# Integers stored in columns

Whatever brings integers into a column of integers or code units, it stores the words of those that
are in the range of the kind, and the sentinel for the others and for those that are missing, which
raise the flag. It is refused only for want of room, or of the place that it names.

## Main definitions

* `Word.Represents`: the word that a column stores for an integer.
* `Column.Stores`: integers were stored in a column, and nothing else happened to it.
* `Column.TakesIn`: an edit stores integers if it is admitted, and otherwise fails.
-/

namespace Columnar

variable {k : Kind} {env : Environment}

/-- The kinds whose words are whole numbers. -/
def Kind.IsIntegral (k : Kind) : Prop := k.isInteger = true ∨ k = .char

namespace Word

/-- A word stands for an integer of its kind. Where there is none or the kind lacks it, the word is
the sentinel. -/
structure Represents (w : Word k) (v : Option Int) : Prop where
  held : ∀ n, v = some n → k.InRange n → w.toInt = some n
  lacking : k.Lacks v → w = sentinel k

theorem represents_stored (integral : k.IsIntegral) (v : Option Int) :
    (Column.stored (v.bind (ofInt k))).Represents v := by
  constructor
  · rintro n rfl inside
    rcases integral with integer | rfl
    · obtain ⟨w, word, value⟩ := exists_ofInt integer inside
      rw [Option.bind_some, word]
      exact value
    · obtain ⟨lower, upper⟩ := inside
      have word : ofInt .char n = some (BitVec.ofInt 16 n) := if_pos ⟨lower, upper⟩
      have small : n % (2 ^ 16 : Nat) = n := Int.emod_eq_of_lt lower (by omega)
      rw [Option.bind_some, word]
      change some ((BitVec.ofInt 16 n).toNat : Int) = some n
      rw [BitVec.toNat_ofInt, small, Int.toNat_of_nonneg lower]
  · intro lacks
    rw [Option.isNone_iff_eq_none.mp (isNone_bind_ofInt_iff.mpr lacks)]
    rfl

end Word

namespace Column

variable {c d : Column k} {vs : List (Option Int)}

/-- Integers were stored in a column, at the places that `place` gives to their words, and the flag
went up if the kind lacks one of them. -/
structure Stores (c d : Column k) (place : List (Word k) → List (Word k))
    (vs : List (Option Int)) : Prop where
  words : ∃ ws, List.Forall₂ Word.Represents ws vs ∧ d.words = place ws
  flag : d.flag = true ↔ c.flag = true ∨ ∃ v ∈ vs, k.Lacks v

/-- An edit stores integers in a column if it is admitted, and otherwise fails and leaves the column
alone. -/
structure TakesIn (e : Edit k Unit) (c : Column k) (admitted : Prop)
    (place : List (Word k) → List (Word k)) (vs : List (Option Int)) : Prop where
  stores : admitted → ∃ d, e.run c = .ok () d ∧ c.Stores d place vs
  refused : ¬ admitted → ∃ err, e.run c = .error err c

/-- The words of integers and the flag that they raise. -/
theorem stores_of_holding (integral : k.IsIntegral) {place : List (Word k) → List (Word k)}
    (cap : Nat) (after : d = holding (place (vs.map fun v => stored (v.bind (Word.ofInt k)))) cap
      (c.flag || vs.any fun v => (v.bind (Word.ofInt k)).isNone)) : c.Stores d place vs := by
  subst after
  refine ⟨⟨_, ?_, words_holding⟩, ?_⟩
  · rw [List.forall₂_map_left_iff, List.forall₂_same]
    exact fun v _ => Word.represents_stored integral v
  · simp only [flag_holding, Bool.or_eq_true, List.any_eq_true, Word.isNone_bind_ofInt_iff]

section

variable (formed : c.WellFormed) (integral : k.IsIntegral)
include formed integral

/-! ## Integers at the end -/

/-- An edit that makes room for integers and adds them. -/
theorem takesIn_of_enlarge {e : Edit k Unit}
    (enlarges : e.run c = enlarge env c.words
      (c.words ++ vs.map fun v => stored (v.bind (Word.ofInt k))) c.capacity c.flag
      (c.flag || vs.any fun v => (v.bind (Word.ofInt k)).isNone)) :
    TakesIn e c (c.HasRoom env vs.length) (c.words ++ ·) vs := by
  rw [enlarge, List.length_append, List.length_map, formed.length_words] at enlarges
  constructor
  · intro room
    rw [refusal_eq_none_iff.mpr room] at enlarges
    exact ⟨_, enlarges, stores_of_holding integral _ rfl⟩
  · intro full
    cases refused : refusal env k c.capacity (c.size + vs.length) with
    | none => exact absurd (refusal_eq_none_iff.mp refused) full
    | some err =>
      rw [refused, formed.holding_eq] at enlarges
      exact ⟨err, enlarges⟩

theorem addConverted_takesIn (v : Option Int) :
    TakesIn (addConverted env (v.bind (Word.ofInt k))) c (c.HasRoom env 1) (c.words ++ ·) [v] := by
  have added : (addConverted env (v.bind (Word.ofInt k))).run
      (holding c.words c.capacity c.flag) = _ :=
    run_addConverted formed.length_words_le_capacity formed.capacity_le _
  rw [formed.holding_eq] at added
  have intake : TakesIn (addConverted env (v.bind (Word.ofInt k))) c (c.HasRoom env [v].length)
      (c.words ++ ·) [v] := takesIn_of_enlarge formed integral (by simpa using added)
  exact intake

theorem addConvertedCopies_takesIn (n : Nat) (v : Option Int) :
    TakesIn (addConvertedCopies env n (v.bind (Word.ofInt k))) c (c.HasRoom env n) (c.words ++ ·)
      (List.replicate n v) := by
  have added : (addConvertedCopies env n (v.bind (Word.ofInt k))).run
      (holding c.words c.capacity c.flag) = _ :=
    run_addConvertedCopies formed.length_words_le_capacity formed.capacity_le n _
  have some_copy : (n != 0) = !decide (n = 0) := rfl
  rw [formed.holding_eq, some_copy] at added
  have length : (List.replicate n v).length = n := List.length_replicate
  rw [← congrArg (c.HasRoom env) length]
  exact takesIn_of_enlarge formed integral (by simpa using added)

/-! ## Integers at a place -/

theorem setConverted_takesIn (i : Nat) (v : Option Int) :
    TakesIn (setConverted i (v.bind (Word.ofInt k))) c (i < c.size)
      (fun ws => c.words.take i ++ ws ++ c.words.drop (i + 1)) [v] := by
  have put : (setConverted i (v.bind (Word.ofInt k))).run
      (holding c.words c.capacity c.flag) = _ := run_setConverted i _
  rw [formed.holding_eq, formed.length_words] at put
  constructor
  · intro inside
    rw [if_pos inside, List.set_eq_take_append_cons_drop,
      if_pos (by rwa [formed.length_words])] at put
    exact ⟨_, put, stores_of_holding integral c.capacity (by simp)⟩
  · intro outside
    rw [if_neg outside] at put
    exact ⟨_, put⟩

/-! ## Integers of another column -/

variable {s : AnyColumn} {f : Word s.kind → Option Int} (source : s.column.WellFormed)
  (crossed : ∀ w, s.column.convertWord k w = (f w).bind (Word.ofInt k))
include source crossed

theorem addFrom_takesIn (start count : Nat) :
    TakesIn (addFrom env s start count) c (start + count ≤ s.column.size ∧ c.HasRoom env count)
      (c.words ++ ·) (((s.column.words.drop start).take count).map f) := by
  have added : (addFrom env s start count).run (holding c.words c.capacity c.flag) = _ :=
    run_addFrom formed.length_words_le_capacity formed.capacity_le s start count
  rw [formed.holding_eq, range] at added
  by_cases inside : start + count ≤ s.column.size
  · have size : (((s.column.words.drop start).take count).map f).length = count := by
      rw [List.length_map, List.length_take, List.length_drop, source.length_words]
      omega
    have conversion : s.column.convertWord k = fun w => (f w).bind (Word.ofInt k) :=
      funext crossed
    rw [if_pos inside, conversion] at added
    have intake : TakesIn (addFrom env s start count) c (c.HasRoom env _) (c.words ++ ·)
        (((s.column.words.drop start).take count).map f) :=
      takesIn_of_enlarge formed integral
        (by simpa only [List.map_map, List.any_map, Function.comp_def] using added)
    rw [size] at intake
    exact ⟨fun admitted => intake.stores admitted.2,
      fun refused => intake.refused fun room => refused ⟨inside, room⟩⟩
  · rw [if_neg inside] at added
    exact ⟨fun admitted => absurd admitted.1 inside, fun _ => ⟨_, added⟩⟩

theorem append_takesIn (different : s.kind ≠ k) :
    TakesIn (append env s) c (c.HasRoom env s.column.size) (c.words ++ ·)
      (s.column.words.map f) := by
  have added : (append env s).run (holding c.words c.capacity c.flag) = _ :=
    run_append formed.length_words_le_capacity formed.capacity_le s
  rw [AnyColumn.as?_of_ne different] at added
  dsimp only at added
  rw [formed.holding_eq] at added
  have intake : TakesIn (addFrom env s 0 s.column.size) c _ (c.words ++ ·) _ :=
    addFrom_takesIn formed integral source crossed 0 s.column.size
  have whole : (s.column.words.drop 0).take s.column.size = s.column.words := by
    rw [List.drop_zero, ← source.length_words, List.take_length]
  rw [whole] at intake
  constructor
  · intro room
    rw [added]
    exact intake.stores ⟨by omega, room⟩
  · intro full
    rw [added]
    exact intake.refused fun admitted => full admitted.2

theorem setFrom_takesIn (i j : Nat) :
    TakesIn (setFrom i s j) c (i < c.size ∧ j < s.column.size)
      (fun ws => c.words.take i ++ ws ++ c.words.drop (i + 1))
      (((s.column.words.drop j).take 1).map f) := by
  by_cases there : j < s.column.size
  · have inside : j < s.column.words.length := by rwa [source.length_words]
    have here : s.column.wordAt j = .ok s.column.words[j] :=
      (wordAt_eq_ok_iff source).mpr (List.getElem?_eq_getElem inside)
    have one : (s.column.words.drop j).take 1 = [s.column.words[j]] := by
      rw [List.drop_eq_getElem_cons inside]
      rfl
    have put : (setFrom i s j).run c = _ := run_setFrom_one formed here
    have intake := setConverted_takesIn formed integral i (f s.column.words[j])
    rw [crossed] at put
    rw [one, List.map_singleton]
    constructor
    · intro admitted
      rw [put]
      exact intake.stores admitted.1
    · intro refused
      rw [put]
      exact intake.refused fun inside => refused ⟨inside, there⟩
  · have missing : s.column.wordAt j = .error _ := if_neg there
    have put : (setFrom i s j).run (holding c.words c.capacity c.flag) = _ := run_setFrom i s j
    rw [missing, formed.holding_eq] at put
    refine ⟨fun admitted => absurd admitted.2 there, fun _ => ?_⟩
    split at put
    · exact ⟨_, put⟩
    · exact ⟨_, put⟩

end

end Column

end Columnar

import Columnar.Column.Transfer
import Columnar.Proofs.Editing

/-!
# Ingestion and copies as operations on lists

A value that a column takes in is stored as `stored` says, and the flag goes up when the value has
no word of its own. A copy from another column is one such step for each copied element, after room
was made for all of them at once.
-/

namespace Columnar.Column

variable {k : Kind} {env : Environment} {words : List (Word k)} {cap : Nat} {flag : Bool}

/-- The word that stands for a conversion result. -/
def stored (converted : Option (Word k)) : Word k := converted.getD (Word.sentinel k)

/-! ## Single values -/

@[simp] theorem run_settle (converted : Option (Word k)) (c : Column k) :
    (settle converted).run c = .ok (stored converted) (c.withFlag converted.isNone) := by
  cases converted with
  | none => rfl
  | some w =>
    have same : c.withFlag false = c := by simp [withFlag]
    simp [settle, stored, same]

theorem run_setConverted (i : Nat) (converted : Option (Word k)) :
    (setConverted i converted).run (holding words cap flag) =
      if i < words.length then
        .ok () (holding (words.set i (stored converted)) cap (flag || converted.isNone))
      else .error (.indexOutOfBounds k i words.length) (holding words cap flag) := by
  by_cases h : i < words.length <;> simp [setConverted, h, run_setWord]

section

variable (length : words.length ≤ cap) (fits : cap ≤ maxSize)
include length fits

theorem run_addConverted (converted : Option (Word k)) :
    (addConverted env converted).run (holding words cap flag) =
      enlarge env words (words ++ [stored converted]) cap flag (flag || converted.isNone) := by
  refine run_reserve_bind length fits _ (by simp) fun grown enough small => ?_
  have before : words.length ≤ grown := by simp at enough; omega
  simp only [EStateM.run_bind, run_settle, withFlag_holding, run_addWord before small,
    enlarge_of_le enough small]

theorem run_addConvertedCopies (n : Nat) (converted : Option (Word k)) :
    (addConvertedCopies env n converted).run (holding words cap flag) =
      enlarge env words (words ++ List.replicate n (stored converted)) cap flag
        (flag || (n != 0 && converted.isNone)) := by
  by_cases none : n = 0
  · simp [addConvertedCopies, none, enlarge_of_le length fits]
  have some : (n != 0) = true := by simp [none]
  simp only [addConvertedCopies, ne_eq, none, not_false_iff, if_true, some, Bool.true_and]
  refine run_reserve_bind length fits _ (by simp) fun grown enough small => ?_
  have before : words.length ≤ grown := by simp at enough; omega
  simp only [EStateM.run_bind, run_settle, withFlag_holding, run_addCopies before small,
    enlarge_of_le enough small]

theorem run_insertText (i : Nat) (s : String) :
    (insertText env i s).run (holding words cap flag) =
      if words.length < i then
        .error (.insertOutOfBounds k i words.length) (holding words cap flag)
      else enlarge env words (words.take i ++ stored (Word.ofText k s) :: words.drop i) cap flag
        (flag || (Word.ofText k s).isNone) := by
  by_cases outside : words.length < i
  · simp [insertText, outside]
  have one : (words.take i ++ stored (Word.ofText k s) :: words.drop i).length =
      words.length + 1 := by grind
  rw [if_neg outside]
  calc (insertText env i s).run (holding words cap flag)
      = (reserve env 1 >>= fun _ => settle (Word.ofText k s) >>= insertWord env i).run
          (holding words cap flag) := by simp [insertText, outside]
    _ = _ := by
      refine run_reserve_bind length fits _ one fun grown enough small => ?_
      have before : words.length ≤ grown := by omega
      simp only [EStateM.run_bind, run_settle, withFlag_holding, run_insertWord before small,
        outside, if_false, enlarge_of_le enough small]

end

/-- The text `source` is replaced by `target` wherever it stands, unless the two are one word. -/
theorem run_switchText (length : words.length ≤ cap) (source target : String) :
    (switchText source target).run (holding words cap flag) =
      let old := stored (Word.ofText k source)
      let new := stored (Word.ofText k target)
      if (old.compare new).isEq then .ok 0 (holding words cap flag)
      else .ok (words.countP (matchesWord old))
        (holding (words.map fun w => if matchesWord old w then new else w) cap
          (flag || (words.countP (matchesWord old) != 0 && new.isSentinel))) := by
  unfold switchText stored
  generalize (Word.ofText k source).getD (Word.sentinel k) = old
  generalize (Word.ofText k target).getD (Word.sentinel k) = new
  by_cases same : (old.compare new).isEq
  · simp [same]
  simp only [same, Bool.false_eq_true, if_false, EStateM.run_bind, EStateM.run_get,
    EStateM.run_modify, EStateM.run_pure, Edit.run_ite, raiseFlag, words_holding,
    withFlag_holding, mapWords_holding _ length]
  generalize words.countP (matchesWord old) = count
  by_cases none : count = 0
  · simp [none]
  · have some : (count != 0) = true := by simp [none]
    cases new.isSentinel <;> simp [none, some]

/-! ## Copies -/

/-- Taking in one value after the other, once there are slots for all of them. -/
theorem run_forM_stored {α : Type} {step : α → Edit k Unit} {conversion : α → Option (Word k)}
    (one : ∀ (a : α) (words : List (Word k)) (flag : Bool), words.length + 1 ≤ cap →
      (step a).run (holding words cap flag) = .ok ()
        (holding (words ++ [stored (conversion a)]) cap (flag || (conversion a).isNone)))
    (values : List α) (enough : words.length + values.length ≤ cap) :
    (values.forM step).run (holding words cap flag) =
      .ok () (holding (words ++ values.map fun a => stored (conversion a)) cap
        (flag || values.any fun a => (conversion a).isNone)) := by
  induction values generalizing words flag with
  | nil => simp
  | cons a rest ih =>
    simp only [List.length_cons] at enough
    rw [List.forM_eq_forM, List.forM_cons, EStateM.run_bind, one a words flag (by omega)]
    refine (ih (by grind)).trans ?_
    simp [Bool.or_assoc]

theorem run_forM_settle (converted : List (Option (Word k))) (fits : cap ≤ maxSize)
    (enough : words.length + converted.length ≤ cap) :
    (converted.forM fun w => do addWord env (← settle w)).run (holding words cap flag) =
      .ok () (holding (words ++ converted.map stored) cap (flag || converted.any (·.isNone))) := by
  have one (w : Option (Word k)) (words : List (Word k)) (flag : Bool)
      (room : words.length + 1 ≤ cap) :
      (settle w >>= addWord env).run (holding words cap flag) =
        .ok () (holding (words ++ [stored w]) cap (flag || w.isNone)) := by
    rw [EStateM.run_bind, run_settle]
    exact (run_addWord (by omega) fits _).trans (enlarge_of_le (by simpa using room) fits)
  exact run_forM_stored one converted enough

theorem run_forM_addText (texts : List String) (fits : cap ≤ maxSize)
    (enough : words.length + texts.length ≤ cap) :
    (texts.forM (addText env)).run (holding words cap flag) =
      .ok () (holding (words ++ texts.map fun s => stored (Word.ofText k s)) cap
        (flag || texts.any fun s => (Word.ofText k s).isNone)) := by
  refine run_forM_stored (fun s words flag room => ?_) texts enough
  exact (run_addConverted (by omega) fits _).trans (enlarge_of_le (by simpa using room) fits)

section

variable (length : words.length ≤ cap) (fits : cap ≤ maxSize)
include length fits

theorem run_addFrom (source : AnyColumn) (start count : Nat) :
    (addFrom env source start count).run (holding words cap flag) =
      match source.column.range start count with
      | .error e => .error e (holding words cap flag)
      | .ok copied =>
        let converted := copied.map (source.column.convertWord k)
        enlarge env words (words ++ converted.map stored) cap flag
          (flag || converted.any (·.isNone)) := by
  simp only [addFrom, EStateM.run_bind, Edit.run_liftM]
  cases source.column.range start count with
  | error e => rfl
  | ok copied =>
    refine run_reserve_bind length fits _ (by simp) fun grown enough small => ?_
    exact run_forM_settle _ small (by simpa using enough)

theorem run_append (source : AnyColumn) :
    (append env source).run (holding words cap flag) =
      match source.as? k with
      | some same => enlarge env words (words ++ same.words) cap flag (flag || same.flag)
      | none => (addFrom env source 0 source.column.size).run (holding words cap flag) := by
  unfold append
  cases source.as? k with
  | none => rfl
  | some same =>
    simp only [EStateM.run_bind, run_addWords length fits, enlarge]
    cases refusal env k cap (words ++ same.words).length <;> rfl

theorem run_appendRaw (source : AnyColumn) :
    (appendRaw env source).run (holding words cap flag) =
      match source.column.range 0 source.column.size with
      | .error e => .error e (holding words cap flag)
      | .ok copied =>
        enlarge env words (words ++ copied.map fun w => stored (convertRawWord k w)) cap flag
          flag := by
  simp only [appendRaw, EStateM.run_bind, Edit.run_liftM]
  cases source.column.range 0 source.column.size with
  | error e => rfl
  | ok copied => exact run_addWords length fits _

end

/-- What a column holds after a range of another one was added to it. -/
theorem of_run_addFrom_eq_ok {c d : Column k} {source : AnyColumn} {start count : Nat} {u : Unit}
    (formed : c.WellFormed) (done : (addFrom env source start count).run c = .ok u d) :
    d.words = c.words ++ (((source.column.words.drop start).take count).map fun w =>
        stored (source.column.convertWord k w)) ∧
      d.flag = (c.flag || ((source.column.words.drop start).take count).any fun w =>
        (source.column.convertWord k w).isNone) := by
  obtain ⟨words, cap, flag, length, fits, raised, rfl⟩ := wellFormed_iff.mp formed
  rw [run_addFrom length fits, range] at done
  split at done
  case h_1 => cases done
  case h_2 copied inside =>
    split at inside
    · cases inside
      obtain ⟨held, up⟩ := of_enlarge_eq_ok done
      rw [List.map_map] at held
      rw [List.any_map] at up
      rw [words_holding, flag_holding]
      exact ⟨held, up⟩
    · cases inside

theorem run_setFrom (i : Nat) (source : AnyColumn) (j : Nat) :
    (setFrom i source j).run (holding words cap flag) =
      if i < words.length then
        match source.column.wordAt j with
        | .error e => .error e (holding words cap flag)
        | .ok w =>
          (setConverted i (source.column.convertWord k w)).run (holding words cap flag)
      else .error (.indexOutOfBounds k i words.length) (holding words cap flag) := by
  by_cases h : i < words.length
  · simp only [setFrom, EStateM.run_bind, EStateM.run_get, Edit.run_liftM, wordAt_holding, h,
      List.getElem?_eq_getElem, if_true]
    cases source.column.wordAt j <;> rfl
  · simp [setFrom, h]

/-! ## Construction -/

theorem build_eq_ok_iff {c d : Column k} {e : Edit k Unit} :
    build c e = .ok d ↔ e.run c = .ok () d := by
  unfold build EStateM.run
  cases e c <;> simp

end Columnar.Column

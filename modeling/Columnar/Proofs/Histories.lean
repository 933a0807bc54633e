import Columnar.Column.Rank
import Columnar.Column.View
import Columnar.Proofs.Outcomes

/-!
# Histories of columns

The columns that a program can get hold of are those that a constructor makes, those derived from
another column, and those that operations leave behind, whether they succeed or fail. A clone is the
column itself. All of them are well-formed, and a failed operation leaves no trace.
-/

namespace Columnar

namespace Column

variable {k : Kind} {env : Environment} {c d : Column k}

/-! ## Construction -/

theorem allocate_eq_ok {n : Nat} {slots : Array (Word k)} (h : allocate env k n = .ok slots) :
    n ≤ maxSize ∧ slots = Array.replicate n (Word.zero k) := by
  obtain ⟨_, allowed, rest⟩ := bind_eq_ok.mp h
  obtain ⟨_, _, ⟨⟩⟩ := bind_eq_ok.mp rest
  exact ⟨checkSize_eq_ok_iff.mp allowed, rfl⟩

/-- A buffer of zero words is a well-formed column, however many of them are elements. -/
theorem wellFormed_zeros {n size : Nat} (length : size ≤ n) (fits : n ≤ maxSize) :
    (ofSlots (Array.replicate n (Word.zero k)) size).WellFormed where
  size_le := by simpa [ofSlots, capacity] using length
  capacity_le := by simpa [ofSlots, capacity] using fits
  spare i _ _ := by simp [ofSlots]
  raised := id

/-- So is a buffer without spare slots. -/
theorem wellFormed_full {words : List (Word k)} (fits : words.length ≤ maxSize) :
    (ofSlots words.toArray words.length).WellFormed where
  size_le := by simp [ofSlots, capacity]
  capacity_le := by simpa [ofSlots, capacity] using fits
  spare i inside beyond := by
    simp only [ofSlots, List.size_toArray] at inside beyond
    omega
  raised := id

theorem wellFormed_empty (valid : env.fault = none) : (Column.empty env k).WellFormed := by
  refine wellFormed_zeros (Nat.zero_le _) ?_
  unfold Config.fault at valid
  split at valid
  · cases valid
  split at valid
  · cases valid
  · unfold maxSize
    omega

theorem wellFormed_withCapacity {n : Nat} (h : withCapacity env k n = .ok c) : c.WellFormed := by
  obtain ⟨slots, granted, ⟨⟩⟩ := bind_eq_ok.mp h
  obtain ⟨fits, rfl⟩ := allocate_eq_ok granted
  exact wellFormed_zeros (Nat.zero_le n) fits

theorem wellFormed_zeroed {n : Nat} (h : zeroed env k n = .ok c) : c.WellFormed := by
  obtain ⟨slots, granted, ⟨⟩⟩ := bind_eq_ok.mp h
  obtain ⟨fits, rfl⟩ := allocate_eq_ok granted
  exact wellFormed_zeros (Nat.le_refl n) fits

theorem wellFormed_ofWords {words : List (Word k)} (h : ofWords words = .ok c) :
    c.WellFormed := by
  obtain ⟨_, allowed, ⟨⟩⟩ := bind_eq_ok.mp h
  exact wellFormed_full (checkSize_eq_ok_iff.mp allowed)

theorem wellFormed_withFlag (up : Bool) (h : c.WellFormed) : (c.withFlag up).WellFormed where
  size_le := h.size_le
  capacity_le := h.capacity_le
  spare := h.spare
  raised text := by simp [withFlag, h.raised text]

theorem wellFormed_replace {new : List (Word k)} (same : new.length = c.size) (h : c.WellFormed) :
    (c.replace new.toArray).WellFormed ∧ (c.replace new.toArray).capacity = c.capacity := by
  obtain ⟨words, cap, flag, length, fits, raised, rfl⟩ := wellFormed_iff.mp h
  rw [size_holding] at same
  rw [replace_holding (by omega) length, capacity_holding length, capacity_holding (by omega)]
  exact ⟨wellFormed_holding (by omega) fits raised, rfl⟩

theorem length_firstOfKeys_le (seen l : List (Word k)) :
    (firstOfKeys seen l).length ≤ l.length := by
  induction l generalizing seen with
  | nil => exact Nat.le_refl 0
  | cons w rest ih =>
    unfold firstOfKeys
    split
    · exact Nat.le_succ_of_le (ih seen)
    · exact Nat.succ_le_succ (ih _)

theorem wellFormed_distinct (h : c.WellFormed) : c.ranking.distinct.WellFormed := by
  unfold ranking
  split
  · exact h
  · refine wellFormed_withFlag c.flag (wellFormed_full ?_)
    have fewer := length_firstOfKeys_le [] c.words
    have small := h.length_words_le
    rw [Word.length_sortWords]
    omega

/-- Steps that keep a column well-formed keep it so one after the other. -/
theorem wellFormed_forM {α : Type} {step : α → Edit k Unit}
    (each : ∀ a (c : Column k), c.WellFormed → c.Outcome ((step a).run c)) (items : List α)
    (h : c.WellFormed) (done : (items.forM step).run c = .ok () d) : d.WellFormed := by
  induction items generalizing c with
  | nil =>
    cases done
    exact h
  | cons a rest ih =>
    rw [List.forM_eq_forM, List.forM_cons, EStateM.run_bind] at done
    have first := each a c h
    generalize (step a).run c = result at first done
    cases first with
    | failed e => cases done
    | done _ formed kept => exact ih formed done

theorem wellFormed_ofCsv {s : String} (h : ofCsv env k s = .ok c) : c.WellFormed := by
  obtain ⟨start, fresh, made⟩ := bind_eq_ok.mp h
  refine wellFormed_forM (fun item c formed => ?_) _ (wellFormed_withCapacity fresh)
    (build_eq_ok_iff.mp made)
  obtain ⟨words, cap, flag, length, fits, raised, rfl⟩ := wellFormed_iff.mp formed
  exact (ends_addConverted length fits (Word.ofText k item)).outcome length fits raised

theorem wellFormed_ofAny {source : AnyColumn} (h : ofAny env k source = .ok c) :
    c.WellFormed := by
  obtain ⟨start, fresh, made⟩ := bind_eq_ok.mp h
  have formed := wellFormed_withCapacity fresh
  obtain ⟨words, cap, flag, length, fits, raised, rfl⟩ := wellFormed_iff.mp formed
  have result : Outcome _ ((append env source).run _) :=
    (ends_append length fits source).outcome length fits raised
  rw [build_eq_ok_iff.mp made] at result
  cases result with
  | done _ formed kept => exact formed

theorem wellFormed_subset {start stride stop : Nat} (h : c.subset start stride stop = .ok d) :
    d.WellFormed := by
  unfold subset at h
  split at h
  · cases h
  · obtain ⟨picked, made, ⟨⟩⟩ := bind_eq_ok.mp h
    exact wellFormed_withFlag c.flag (wellFormed_ofWords made)

theorem wellFormed_makeSigned {a b : AnyColumn} (h : a.makeSigned = .ok b)
    (formed : a.column.WellFormed) : b.column.WellFormed := by
  unfold AnyColumn.makeSigned at h
  split at h
  · obtain ⟨picked, made, ⟨⟩⟩ := bind_eq_ok.mp h
    exact wellFormed_ofWords made
  · cases h
    exact formed

theorem wellFormed_convertTo {a b : AnyColumn} (h : a.convertTo env k = .ok b)
    (formed : a.column.WellFormed) : b.column.WellFormed := by
  unfold AnyColumn.convertTo at h
  split at h
  · cases h
    exact formed
  · obtain ⟨copied, made, ⟨⟩⟩ := bind_eq_ok.mp h
    exact wellFormed_ofAny made

/-- A converted column has the kind that was asked for. -/
theorem kind_of_convertTo {a b : AnyColumn} (h : a.convertTo env k = .ok b) : b.kind = k := by
  unfold AnyColumn.convertTo at h
  split at h
  case isTrue same =>
    cases h
    exact same.symm
  case isFalse =>
    obtain ⟨copied, -, ⟨⟩⟩ := bind_eq_ok.mp h
    rfl

/-! ## Reachable columns -/

/-- The columns that a program can get hold of in an environment. -/
inductive Reachable : Environment → {k : Kind} → Column k → Prop where
  /-- Only configurations that are in range are ever in force. -/
  | empty {env : Environment} (k : Kind) (valid : env.fault = none) :
    Reachable env (Column.empty env k)
  | withCapacity {env : Environment} {k : Kind} {c : Column k} (n : Nat)
    (made : Column.withCapacity env k n = .ok c) : Reachable env c
  | zeroed {env : Environment} {k : Kind} {c : Column k} (n : Nat)
    (made : Column.zeroed env k n = .ok c) : Reachable env c
  | ofWords {env : Environment} {k : Kind} {c : Column k} (words : List (Word k))
    (made : Column.ofWords words = .ok c) : Reachable env c
  | ofValues {env : Environment} {k : Kind} {c : Column k} (values : List (Value k))
    (made : Column.ofValues values = .ok c) : Reachable env c
  | ofCsv {env : Environment} {k : Kind} {c : Column k} (s : String)
    (made : Column.ofCsv env k s = .ok c) : Reachable env c
  | ofAny {env : Environment} {k : Kind} {c : Column k} (source : AnyColumn)
    (made : Column.ofAny env k source = .ok c) : Reachable env c
  | subset {env : Environment} {k : Kind} {c d : Column k} (start stride stop : Nat)
    (before : Reachable env c) (made : c.subset start stride stop = .ok d) : Reachable env d
  | distinct {env : Environment} {k : Kind} {c : Column k} (before : Reachable env c) :
    Reachable env c.ranking.distinct
  | makeSigned {env : Environment} {a b : AnyColumn} (before : Reachable env a.column)
    (made : a.makeSigned = .ok b) : Reachable env b.column
  | convertTo {env : Environment} {a b : AnyColumn} (k : Kind) (before : Reachable env a.column)
    (made : a.convertTo env k = .ok b) : Reachable env b.column
  | operated {env : Environment} {k : Kind} {c : Column k} (op : Operation k)
    (before : Reachable env c) : Reachable env (op.after env c)
  /-- The caller writes into the elements directly. -/
  | overwritten {env : Environment} {k : Kind} {c : Column k} (new : List (Word k))
    (same : new.length = c.size) (before : Reachable env c) : Reachable env (c.replace new.toArray)
  /-- Meanwhile the allocator has got more memory, or less. -/
  | meanwhile {env later : Environment} {k : Kind} {c : Column k}
    (same : later.toConfig = env.toConfig) (before : Reachable env c) : Reachable later c

theorem Reachable.wellFormed (h : Reachable env c) : c.WellFormed := by
  induction h with
  | empty k valid => exact wellFormed_empty valid
  | withCapacity n made => exact wellFormed_withCapacity made
  | zeroed n made => exact wellFormed_zeroed made
  | ofWords words made => exact wellFormed_ofWords made
  | ofValues values made => exact wellFormed_ofWords made
  | ofCsv s made => exact wellFormed_ofCsv made
  | ofAny source made => exact wellFormed_ofAny made
  | subset start stride stop before made ih => exact wellFormed_subset made
  | distinct before ih => exact wellFormed_distinct ih
  | makeSigned before made ih => exact wellFormed_makeSigned made ih
  | convertTo k before made ih => exact wellFormed_convertTo made ih
  | operated op before ih => exact op.wellFormed_after ih
  | overwritten new same before ih => exact (wellFormed_replace same ih).1
  | meanwhile same before ih => exact ih

/-! ## What holds of all of them -/

/-- The shape of every reachable column. Only trimming takes capacity from it. -/
theorem Reachable.shape (h : Reachable env c) :
    c.size ≤ c.capacity ∧ c.capacity ≤ maxSize ∧
      (∀ i (_ : i < c.slots.size), c.size ≤ i → c.slots[i] = Word.zero k) ∧
      (k ∈ [.float, .double, .char, .string] → c.flag = true) ∧
      (∀ op : Operation k, op ≠ .trimToSize → c.capacity ≤ (op.after env c).capacity) ∧
      ∀ new : List (Word k), new.length = c.size →
        c.capacity ≤ (c.replace new.toArray).capacity := by
  have formed := h.wellFormed
  refine ⟨formed.size_le, formed.capacity_le, formed.spare, ?_, ?_, ?_⟩
  · intro listed
    apply formed.raised
    simp only [List.mem_cons, List.not_mem_nil, or_false] at listed
    obtain rfl | rfl | rfl | rfl := listed <;> rfl
  · intro op untrimmed
    exact (op.keeps untrimmed formed).2
  · intro new same
    exact Nat.le_of_eq (wellFormed_replace same formed).2.symm

/-- A text column after its first element, and after that is taken away again. -/
theorem shape_of_one_text :
    let c := (Operation.addText "a").after {} (Column.empty {} .string)
    c.size ≤ c.capacity ∧ c.capacity ≤ maxSize ∧
      (∀ i (_ : i < c.slots.size), c.size ≤ i → c.slots[i] = "") ∧ c.flag = true ∧
      c.capacity ≤ (Operation.clear.after {} c).capacity ∧
      c.capacity ≤ (c.replace #["b"]).capacity := by
  intro c
  have reached : Reachable {} c := .operated (.addText "a") (.empty .string rfl)
  obtain ⟨size, bound, spare, flag, keeps, overwritten⟩ := Reachable.shape reached
  exact ⟨size, bound, spare, flag (by decide), keeps .clear (by simp), overwritten ["b"] rfl⟩

/-- A failed operation leaves the whole column as it was: its elements, its size, its capacity and
its flag. -/
theorem Reachable.eq_of_error {op : Operation k} {e : ColumnError} (h : Reachable env c)
    (failed : (op.run env).run c = .error e d) : d = c := by
  by_cases trims : op = .trimToSize
  · subst trims
    cases failed
  · have result : c.Outcome ((op.run env).run c) := op.outcome trims h.wellFormed
    rw [failed] at result
    cases result
    rfl

/-- The input ends inside its second word, and the first one is not added either. -/
theorem eq_after_truncated_input :
    ∃ e d, ((Operation.readFrom 2 [0, 0, 0, 5, 0, 0]).run {}).run (Column.empty {} .int) =
      .error e d ∧ d = Column.empty {} .int := by
  obtain ⟨e, d, failed⟩ : ∃ e d, ((Operation.readFrom 2 [0, 0, 0, 5, 0, 0]).run {}).run
      (Column.empty {} .int) = .error e d := ⟨_, _, rfl⟩
  exact ⟨e, d, failed, Reachable.eq_of_error (.empty .int rfl) failed⟩

end Column

end Columnar

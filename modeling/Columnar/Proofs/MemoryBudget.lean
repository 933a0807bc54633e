import Columnar.Proofs.GrowthLimits
import Columnar.Proofs.ListView

/-!
# The memory budget

Only some buffers are held against the memory limit when they are made: those of fresh columns and
those that a column grows into. Subsets, distinct values, signed copies and columns that take words
over as their buffer are not. What is derived is never larger than its source, though, so all
columns stay within the limit unless a buffer beyond it was handed over by the caller.

## Main definitions

* `Column.Spends`: how the operations on a column use memory.
* `AnyColumn.Derived`: the columns that are made from another one.
* `Column.Frugal`: the reachable columns whose history takes no buffer beyond the limit.
-/

namespace Columnar

namespace Column

variable {k : Kind} {env : Environment} {c d : Column k} {α β : Type}

/-! ## What one operation spends -/

/-- The ways in which an edit of `c` may end, with regard to memory: its buffer does not get larger,
unless it is granted room. -/
inductive Spends (env : Environment) (c : Column k) :
    EStateM.Result ColumnError (Column k) α → Prop where
  | failed (e : ColumnError) : Spends env c (.error e c)
  | kept (a : α) {d : Column k} (less : d.capacity ≤ c.capacity) : Spends env c (.ok a d)
  | grown (a : α) {d : Column k} (needed : Nat) (granted : refusal env k c.capacity needed = none)
    (capacity : d.capacity = capacityFor c.capacity needed) : Spends env c (.ok a d)

theorem Ends.spends {words : List (Word k)} {cap : Nat} {flag : Bool}
    {r : EStateM.Result ColumnError (Column k) α} (h : Ends env words cap flag r)
    (length : words.length ≤ cap) : Spends env (holding words cap flag) r := by
  cases h with
  | failed e => exact .failed e
  | kept a shorter monotone =>
    exact .kept a (Nat.le_of_eq ((capacity_holding shorter).trans (capacity_holding length).symm))
  | @grown a new needed up granted enough monotone =>
    refine .grown a needed ?_ ?_
    · rwa [capacity_holding length]
    · rw [capacity_holding length, capacity_holding enough]

/-- A capacity that is granted is within the limit. -/
theorem not_forbids_capacityFor {cap needed : Nat} (granted : refusal env k cap needed = none)
    (free : ¬ env.Forbids k cap) : ¬ env.Forbids k (capacityFor cap needed) := by
  rw [refusal_eq_of_le_maxSize (le_of_refusal_eq_none granted)] at granted
  split at granted
  case isFalse => cases granted
  case isTrue room =>
    unfold capacityFor
    split
    case isTrue => exact free
    case isFalse scarce => exact fun forbidden => room.resolve_left scarce (.inl forbidden)

theorem Spends.not_forbids {a : α} (h : Spends env c (.ok a d))
    (free : ¬ env.Forbids k c.capacity) : ¬ env.Forbids k d.capacity := by
  cases h with
  | kept _ less => exact fun forbidden => free (forbidden.mono less)
  | grown _ needed granted capacity =>
    rw [capacity]
    exact not_forbids_capacityFor granted free

end Column

namespace Operation

variable {k : Kind} {env : Environment} {c : Column k}

/-- What an operation spends, which is less than nothing if it trims the column. -/
theorem spends (op : Operation k) (formed : c.WellFormed) : c.Spends env ((op.run env).run c) := by
  obtain ⟨words, cap, flag, length, fits, raised, rfl⟩ := Column.wellFormed_iff.mp formed
  by_cases trims : op = .trimToSize
  · subst trims
    rw [run_trimming]
    refine .kept _ ?_
    rwa [Column.capacity_holding (Nat.le_refl _), Column.capacity_holding length]
  · exact (op.ends trims length fits).spends length

/-- Whether it succeeds or fails, an operation leaves a buffer within the limit within it. -/
theorem not_forbids_after (op : Operation k) (formed : c.WellFormed)
    (free : ¬ env.Forbids k c.capacity) : ¬ env.Forbids k (op.after env c).capacity := by
  have result : c.Spends env ((op.run env).run c) := op.spends formed
  unfold after
  generalize (op.run env).run c = r at result ⊢
  cases r with
  | ok a d => exact result.not_forbids free
  | error e d =>
    cases result
    exact free

end Operation

/-! ## What is derived -/

namespace AnyColumn

/-- The columns that are made from another one, which they leave alone. -/
inductive Derived (env : Environment) : AnyColumn → AnyColumn → Prop where
  | clone (a : AnyColumn) : Derived env a a
  | subset {k : Kind} {c d : Column k} (start stride stop : Nat)
    (made : c.subset start stride stop = .ok d) : Derived env ⟨c⟩ ⟨d⟩
  | distinct {k : Kind} (c : Column k) : Derived env ⟨c⟩ ⟨c.ranking.distinct⟩
  | makeSigned {a b : AnyColumn} (made : a.makeSigned = .ok b) : Derived env a b
  | convertTo {a b : AnyColumn} (k : Kind) (made : a.convertTo env k = .ok b) : Derived env a b
  | ofAny {a : AnyColumn} {k : Kind} {d : Column k} (made : Column.ofAny env k a = .ok d) :
    Derived env a ⟨d⟩

end AnyColumn

namespace Column

variable {k : Kind} {env : Environment} {c d : Column k}

theorem capacity_empty (env : Environment) (k : Kind) :
    (Column.empty env k).capacity = env.initialCapacity := Array.size_replicate

theorem not_forbids_allocate {n : Nat} {slots : Array (Word k)}
    (granted : allocate env k n = .ok slots) : slots.size = n ∧ ¬ env.Forbids k n := by
  obtain ⟨fits, rfl⟩ := allocate_eq_ok granted
  refine ⟨Array.size_replicate, fun forbidden => ?_⟩
  rw [allocate_of_le fits, checkMemory_of_refuses (.inl forbidden)] at granted
  cases granted

theorem not_forbids_withCapacity {n : Nat} (made : withCapacity env k n = .ok c) :
    ¬ env.Forbids k c.capacity := by
  obtain ⟨slots, granted, ⟨⟩⟩ := bind_eq_ok.mp made
  obtain ⟨size, free⟩ := not_forbids_allocate granted
  rwa [← size] at free

theorem not_forbids_zeroed {n : Nat} (made : zeroed env k n = .ok c) :
    ¬ env.Forbids k c.capacity := by
  obtain ⟨slots, granted, ⟨⟩⟩ := bind_eq_ok.mp made
  obtain ⟨size, free⟩ := not_forbids_allocate granted
  rwa [← size] at free

/-- A list of words becomes the buffer, without spare slots. -/
theorem capacity_ofWords {words : List (Word k)} (made : ofWords words = .ok c) :
    c.capacity = words.length := by
  obtain ⟨_, allowed, ⟨⟩⟩ := bind_eq_ok.mp made
  rfl

theorem not_forbids_ofCsv {s : String} (made : ofCsv env k s = .ok c) :
    ¬ env.Forbids k c.capacity := by
  obtain ⟨start, fresh, -⟩ := bind_eq_ok.mp made
  obtain ⟨slots, granted, -⟩ := bind_eq_ok.mp fresh
  have fits : ((Text.splitCsv s).map (Word.ofText k)).length ≤ maxSize := by
    simpa using (allocate_eq_ok granted).1
  have taken : c = taking ((Text.splitCsv s).map (Word.ofText k)) := eq_of_ofCsv rfl fits made
  have capacity : c.capacity = (Text.splitCsv s).length := by
    rw [taken, taking, capacity_holding (by simp), List.length_map]
  rw [capacity]
  exact (not_forbids_allocate granted).2

/-- A copy of any column takes only as much memory as it is granted. -/
theorem not_forbids_ofAny {source : AnyColumn} (made : ofAny env k source = .ok c) :
    ¬ env.Forbids k c.capacity := by
  obtain ⟨start, fresh, built⟩ := bind_eq_ok.mp made
  have formed := wellFormed_withCapacity fresh
  have free := not_forbids_withCapacity fresh
  obtain ⟨words, cap, flag, length, fits, raised, rfl⟩ := wellFormed_iff.mp formed
  have result : Spends env _ ((append env source).run (holding words cap flag)) :=
    (ends_append length fits source).spends length
  rw [build_eq_ok_iff.mp built] at result
  exact result.not_forbids free

theorem capacity_subset_le {start stride stop : Nat} (made : c.subset start stride stop = .ok d)
    (formed : c.WellFormed) : d.capacity ≤ c.capacity := by
  rw [subset_eq formed] at made
  split at made
  · cases made
  · cases made
    have fewer := length_everyNth_le (stride - 1) ((c.words.take (stop + 1)).drop start)
    have elements := formed.length_words_le_capacity
    simp only [List.length_drop, List.length_take] at fewer
    simp only [withFlag, ofSlots, capacity, List.size_toArray] at elements ⊢
    omega

theorem capacity_distinct_le (formed : c.WellFormed) :
    c.ranking.distinct.capacity ≤ c.capacity := by
  unfold ranking
  split
  · exact Nat.le_refl _
  · have fewer := length_firstOfKeys_le [] c.words
    have elements := formed.length_words_le_capacity
    rw [← Word.length_sortWords .sequential (firstOfKeys [] c.words)] at fewer
    exact Nat.le_trans fewer elements

/-- Signed words are as wide as the unsigned ones that they are taken from. -/
theorem not_forbids_makeSigned {a b : AnyColumn} (made : a.makeSigned = .ok b)
    (formed : a.column.WellFormed) (free : ¬ env.Forbids a.kind a.column.capacity) :
    ¬ env.Forbids b.kind b.column.capacity := by
  unfold AnyColumn.makeSigned at made
  split at made
  · obtain ⟨signed, taken, ⟨⟩⟩ := bind_eq_ok.mp made
    have elements := formed.length_words_le_capacity
    rw [← capacity_ofWords taken] at elements
    exact fun forbidden => free (forbidden.mono elements)
  · cases made
    exact free

theorem not_forbids_convertTo {a b : AnyColumn} (made : a.convertTo env k = .ok b)
    (free : ¬ env.Forbids a.kind a.column.capacity) : ¬ env.Forbids b.kind b.column.capacity := by
  unfold AnyColumn.convertTo at made
  split at made
  · cases made
    exact free
  · obtain ⟨copied, fresh, ⟨⟩⟩ := bind_eq_ok.mp made
    exact not_forbids_ofAny fresh

end Column

theorem AnyColumn.Derived.not_forbids {env : Environment} {a b : AnyColumn} (h : Derived env a b)
    (formed : a.column.WellFormed) (free : ¬ env.Forbids a.kind a.column.capacity) :
    ¬ env.Forbids b.kind b.column.capacity := by
  cases h with
  | clone => exact free
  | subset start stride stop made =>
    exact fun forbidden => free (forbidden.mono (Column.capacity_subset_le made formed))
  | distinct c => exact fun forbidden => free (forbidden.mono (Column.capacity_distinct_le formed))
  | makeSigned made => exact Column.not_forbids_makeSigned made formed free
  | convertTo k made => exact Column.not_forbids_convertTo made free
  | ofAny made => exact Column.not_forbids_ofAny made

namespace Column

variable {k : Kind} {env : Environment} {c : Column k}

/-! ## Histories -/

/-- The columns that a program can get hold of without handing over a buffer beyond the limit. -/
inductive Frugal : Environment → {k : Kind} → Column k → Prop where
  | empty {env : Environment} (k : Kind) (valid : env.fault = none) :
    Frugal env (Column.empty env k)
  | withCapacity {env : Environment} {k : Kind} {c : Column k} (n : Nat)
    (made : Column.withCapacity env k n = .ok c) : Frugal env c
  | zeroed {env : Environment} {k : Kind} {c : Column k} (n : Nat)
    (made : Column.zeroed env k n = .ok c) : Frugal env c
  | ofWords {env : Environment} {k : Kind} {c : Column k} (words : List (Word k))
    (within : ¬ env.Forbids k words.length) (made : Column.ofWords words = .ok c) : Frugal env c
  | ofValues {env : Environment} {k : Kind} {c : Column k} (values : List (Value k))
    (within : ¬ env.Forbids k values.length) (made : Column.ofValues values = .ok c) :
    Frugal env c
  | ofCsv {env : Environment} {k : Kind} {c : Column k} (s : String)
    (made : Column.ofCsv env k s = .ok c) : Frugal env c
  /-- Whatever the history of the source is, the copy has none of it. -/
  | ofAny {env : Environment} {k : Kind} {c : Column k} (source : AnyColumn)
    (made : Column.ofAny env k source = .ok c) : Frugal env c
  | derived {env : Environment} {a b : AnyColumn} (before : Frugal env a.column)
    (made : a.Derived env b) : Frugal env b.column
  | operated {env : Environment} {k : Kind} {c : Column k} (op : Operation k)
    (before : Frugal env c) : Frugal env (op.after env c)
  | overwritten {env : Environment} {k : Kind} {c : Column k} (new : List (Word k))
    (same : new.length = c.size) (before : Frugal env c) : Frugal env (c.replace new.toArray)
  /-- Meanwhile the allocator has got more memory, or less. -/
  | meanwhile {env later : Environment} {k : Kind} {c : Column k}
    (same : later.toConfig = env.toConfig) (before : Frugal env c) : Frugal later c

theorem Reachable.derived {a b : AnyColumn} (h : Reachable env a.column)
    (made : a.Derived env b) : Reachable env b.column := by
  cases made with
  | clone => exact h
  | subset start stride stop made => exact .subset start stride stop h made
  | distinct c => exact .distinct h
  | makeSigned made => exact .makeSigned h made
  | convertTo k made => exact .convertTo k h made
  | ofAny made => exact .ofAny _ made

theorem Frugal.reachable (h : Frugal env c) : Reachable env c := by
  induction h with
  | empty k valid => exact .empty k valid
  | withCapacity n made => exact .withCapacity n made
  | zeroed n made => exact .zeroed n made
  | ofWords words within made => exact .ofWords words made
  | ofValues values within made => exact .ofValues values made
  | ofCsv s made => exact .ofCsv s made
  | ofAny source made => exact .ofAny source made
  | derived before made ih => exact ih.derived made
  | operated op before ih => exact .operated op ih
  | overwritten new same before ih => exact .overwritten new same ih
  | meanwhile same before ih => exact .meanwhile same ih

/-- A column that starts within the limit stays within it. -/
theorem Frugal.not_forbids (h : Frugal env c) (starts : ∀ k, ¬ env.Forbids k env.initialCapacity) :
    ¬ env.Forbids k c.capacity := by
  induction h with
  | empty k valid =>
    rw [capacity_empty]
    exact starts k
  | withCapacity n made => exact not_forbids_withCapacity made
  | zeroed n made => exact not_forbids_zeroed made
  | ofWords words within made => rwa [capacity_ofWords made]
  | ofValues values within made => rwa [capacity_ofWords made, List.length_map]
  | ofCsv s made => exact not_forbids_ofCsv made
  | ofAny source made => exact not_forbids_ofAny made
  | derived before made ih => exact made.not_forbids before.reachable.wellFormed (ih starts)
  | operated op before ih => exact op.not_forbids_after before.reachable.wellFormed (ih starts)
  | overwritten new same before ih =>
    rw [(wellFormed_replace same before.reachable.wellFormed).2]
    exact ih starts
  | meanwhile same before ih =>
    rw [same] at starts ⊢
    exact ih starts

/-- Under a limit of one megabyte no column takes more than that, whatever the allocator has, unless
its history takes over a buffer that does: not the column itself, nor what an operation leaves, nor
what is derived from it. -/
theorem Frugal.stays_within (h : Frugal env c) (limit : env.toConfig = .megabyte) :
    c.capacity * k.slotBytes ≤ 1048576 ∧
    (∀ (op : Operation k) a d, (op.run env).run c = .ok a d →
      d.capacity * k.slotBytes ≤ 1048576) ∧
    ∀ b, AnyColumn.Derived env ⟨c⟩ b → b.column.capacity * b.kind.slotBytes ≤ 1048576 := by
  have formed := h.reachable.wellFormed
  have forbids_iff {k : Kind} {n : Nat} : ¬ env.Forbids k n ↔ n * k.slotBytes ≤ 1048576 := by
    rw [limit]
    exact Config.not_forbids_megabyte_iff
  have small : ∀ k ∈ Kind.all, Config.megabyte.initialCapacity * k.slotBytes ≤ 1048576 := by decide
  have starts (k : Kind) : ¬ env.Forbids k env.initialCapacity := by
    rw [forbids_iff, limit]
    exact small k k.mem_all
  have free := h.not_forbids starts
  refine ⟨forbids_iff.mp free, ?_, ?_⟩
  · intro op a d done
    have result : c.Spends env ((op.run env).run c) := op.spends formed
    rw [done] at result
    exact forbids_iff.mp (result.not_forbids free)
  · intro b derived
    exact forbids_iff.mp (derived.not_forbids formed free)

/-- A text column that takes almost the whole megabyte, after it took in a text, and as bytes. -/
theorem memory_of_one_text :
    ∃ (c d : Column .string) (b : AnyColumn), withCapacity .megabyte .string 43690 = .ok c ∧
      ((Operation.addText "7").run .megabyte).run c = .ok .done d ∧
      (⟨d⟩ : AnyColumn).convertTo .megabyte .byte = .ok b ∧
      c.capacity * 24 ≤ 1048576 ∧ d.capacity * 24 ≤ 1048576 ∧
      b.column.capacity * b.kind.slotBytes ≤ 1048576 := by
  have granted : ¬ Environment.megabyte.Refuses .string 43690 :=
    Environment.not_refuses_megabyte (by decide)
  have fits : 43690 ≤ maxSize := by decide
  obtain ⟨c, made, held, -⟩ := withCapacity_of_not_refuses fits granted
  have frugal : Frugal .megabyte c := .withCapacity 43690 made
  obtain ⟨d, added, size⟩ : ∃ d, ((Operation.addText "7").run .megabyte).run c = .ok .done d ∧
      d.size = 1 := by
    rw [held, Operation.run, Operation.run_done, addText, run_addConverted (Nat.zero_le _) fits,
      enlarge_of_le (by decide) fits]
    exact ⟨_, rfl, rfl⟩
  have left : (Operation.addText "7").after .megabyte c = d := by rw [Operation.after, added]
  have frugal' : Frugal .megabyte d := left ▸ .operated _ frugal
  obtain ⟨b, converted⟩ : ∃ b, (⟨d⟩ : AnyColumn).convertTo .megabyte .byte = .ok b := by
    have one : ¬ Environment.megabyte.Refuses .byte d.size := by
      rw [size]
      exact Environment.not_refuses_megabyte (by decide)
    have different : Kind.byte ≠ Kind.string := by decide
    rw [AnyColumn.convertTo_of_ne different frugal'.reachable.wellFormed,
      checkMemory_of_not_refuses one]
    exact ⟨_, rfl⟩
  obtain ⟨whole, kept, -⟩ := Frugal.stays_within frugal rfl
  obtain ⟨-, -, derives⟩ := Frugal.stays_within frugal' rfl
  exact ⟨c, d, b, made, added, converted, whole, kept _ _ _ added,
    derives b (.convertTo _ converted)⟩

end Column

end Columnar

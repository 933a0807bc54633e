import Columnar.Proofs.Converting
import Columnar.Proofs.Histories

/-!
# Limits of growth

An operation that adds elements asks for room for all of them first. What it asks for has to be
allowed, but is not what it is granted: a column that has to grow gets double its capacity where
that is more, and it is this larger buffer that the memory limit is held against. So a column may be
refused room for one more element although a buffer of just that size would be within the limit.

## Main definitions

* `Column.doubled`: the capacity that a column grows to when little is asked for.
* `Column.Grows`: how an edit ends that asks for room and fails in no other way.
* `Operation.demand`: how many elements such an operation needs room for in all.
-/

namespace Columnar

namespace Config

/-- One megabyte for a buffer, and sorting on several processors from 64 elements on. -/
def megabyte : Config := { parallelSortThreshold := 64, memoryLimitMb := 1 }

theorem not_forbids_megabyte_iff {k : Kind} {count : Nat} :
    ¬ megabyte.Forbids k count ↔ count * k.slotBytes ≤ 1048576 := by
  have limited : megabyte.memoryLimitBytes = some 1048576 :=
    memoryLimitBytes_of_lt (by decide) (by decide)
  simp [Forbids, limited]

end Config

/-- One megabyte for a buffer, from an allocator that has all of it. -/
def Environment.megabyte : Environment := { Config.megabyte with }

theorem Environment.not_refuses_megabyte {k : Kind} {count : Nat}
    (less : count * k.slotBytes ≤ 1048576) : ¬ megabyte.Refuses k count := by
  rintro (forbidden | ⟨-, ⟨⟩⟩)
  exact Config.not_forbids_megabyte_iff.mpr less forbidden

namespace Column

variable {k : Kind} {env : Environment} {words new : List (Word k)} {cap m : Nat} {flag up : Bool}

/-- Twice the capacity, as far as the largest size allows. -/
def doubled (cap : Nat) : Nat := min (2 * cap) maxSize

theorem withCapacity_of_not_refuses (fits : m ≤ maxSize) (free : ¬ env.Refuses k m) :
    ∃ c : Column k, withCapacity env k m = .ok c ∧ c = holding [] m k.missingFixed ∧
      c.capacity = m := by
  rw [withCapacity_eq fits, checkMemory_of_not_refuses free]
  exact ⟨_, rfl, rfl, capacity_holding (Nat.zero_le m)⟩

/-- Where the request itself is within the limit, it is double the capacity that may be beyond. -/
theorem forbids_grownCapacity_iff (fits : ¬ env.Forbids k m) :
    env.Forbids k (grownCapacity cap m) ↔ env.Forbids k (doubled cap) := by
  have grown : grownCapacity cap m = max m (doubled cap) := rfl
  rw [grown]
  rcases Nat.le_total (doubled cap) m with less | more
  · rw [Nat.max_eq_left less]
    exact iff_of_false fits fun forbidden => fits (forbidden.mono less)
  · rw [Nat.max_eq_right more]

theorem grownCapacity_of_forbids (fits : ¬ env.Forbids k m)
    (forbidden : env.Forbids k (grownCapacity cap m)) : grownCapacity cap m = doubled cap := by
  refine Nat.max_eq_right (Nat.le_of_lt (Nat.lt_of_not_le fun less => ?_))
  exact fits (((forbids_grownCapacity_iff fits).mp forbidden).mono less)

/-! ## Edits that ask for room -/

/-- The ways in which an edit of `c` may end that asks for room for `needed` elements in all, and
cannot fail once it has been given room. -/
inductive Grows {α : Type} (env : Environment) (c : Column k) (needed : Nat) :
    EStateM.Result ColumnError (Column k) α → Prop where
  | refused (e : ColumnError) (refused : refusal env k c.capacity needed = some e) :
    Grows env c needed (.error e c)
  | granted (a : α) {d : Column k} (granted : refusal env k c.capacity needed = none)
    (capacity : d.capacity = capacityFor c.capacity needed) : Grows env c needed (.ok a d)

theorem Grows.done {c : Column k} {n : Nat} {e : Edit k Unit} (h : Grows env c n (e.run c))
    (asks : some n = some m) : Grows env c m ((Operation.done e).run c) := by
  cases asks
  rw [Operation.done_eq_map, Edit.run_map]
  generalize e.run c = result at h
  cases h with
  | refused e refused => exact .refused e refused
  | granted a granted capacity => exact .granted _ granted capacity

/-- Some edits have to be at an index of the column, and ask for nothing elsewhere. -/
theorem Grows.done_of_inside {c : Column k} {n : Nat} {inside : Prop} [Decidable inside]
    {e : Edit k Unit} (h : inside → Grows env c n (e.run c))
    (asks : (if inside then some n else none) = some m) :
    Grows env c m ((Operation.done e).run c) := by
  obtain ⟨there, asks⟩ := Option.ite_none_right_eq_some.mp asks
  exact (h there).done asks

section

variable (length : words.length ≤ cap)
include length

theorem grows_enlarge (size : new.length = m) :
    Grows env (holding words cap flag) m (enlarge env words new cap flag up) := by
  subst size
  rw [enlarge]
  cases room : refusal env k cap new.length with
  | some e => exact .refused e (by rwa [capacity_holding length])
  | none =>
    refine .granted () (by rwa [capacity_holding length]) ?_
    rw [capacity_holding (le_capacityFor cap new.length), capacity_holding length]

variable (fits : cap ≤ maxSize)
include fits

/-- Changing elements in place asks for room that is there. -/
theorem grows_stored (size : new.length = words.length) :
    Grows env (holding words cap flag) words.length (.ok () (holding new cap up)) := by
  have stored : enlarge env words new cap flag up = .ok () (holding new cap up) :=
    enlarge_of_le (by omega) fits
  rw [← stored]
  exact grows_enlarge length size

theorem grows_ensureCapacity (minimum : Nat) :
    Grows env (holding words cap flag) minimum
      ((ensureCapacity env minimum).run (holding words cap flag)) := by
  rw [run_ensureCapacity length fits]
  cases room : refusal env k cap minimum with
  | some e => exact .refused e (by rwa [capacity_holding length])
  | none =>
    have longer := Nat.le_trans length (capacity_le_capacityFor cap minimum)
    refine .granted () (by rwa [capacity_holding length]) ?_
    rw [capacity_holding longer, capacity_holding length]

theorem grows_addWord (w : Word k) :
    Grows env (holding words cap flag) (words.length + 1)
      ((addWord env w).run (holding words cap flag)) := by
  rw [run_addWord length fits]
  exact grows_enlarge length List.length_append

theorem grows_addWords (more : List (Word k)) :
    Grows env (holding words cap flag) (words.length + more.length)
      ((addWords env more).run (holding words cap flag)) := by
  rw [run_addWords length fits]
  exact grows_enlarge length List.length_append

theorem grows_addCopies (n : Nat) (w : Word k) :
    Grows env (holding words cap flag) (words.length + n)
      ((addCopies env n w).run (holding words cap flag)) := by
  rw [run_addCopies length fits]
  exact grows_enlarge length (by simp)

theorem grows_addConverted (converted : Option (Word k)) :
    Grows env (holding words cap flag) (words.length + 1)
      ((addConverted env converted).run (holding words cap flag)) := by
  rw [run_addConverted length fits]
  exact grows_enlarge length List.length_append

theorem grows_addConvertedCopies (n : Nat) (converted : Option (Word k)) :
    Grows env (holding words cap flag) (words.length + n)
      ((addConvertedCopies env n converted).run (holding words cap flag)) := by
  rw [run_addConvertedCopies length fits]
  exact grows_enlarge length (by simp)

variable {i : Nat}

section

variable (inside : i ≤ words.length)
include inside

theorem grows_insertWord (w : Word k) :
    Grows env (holding words cap flag) (words.length + 1)
      ((insertWord env i w).run (holding words cap flag)) := by
  rw [run_insertWord length fits, if_neg (Nat.not_lt.mpr inside)]
  exact grows_enlarge length (by grind)

theorem grows_insertText (s : String) :
    Grows env (holding words cap flag) (words.length + 1)
      ((insertText env i s).run (holding words cap flag)) := by
  rw [run_insertText length fits, if_neg (Nat.not_lt.mpr inside)]
  exact grows_enlarge length (by grind)

end

section

variable (inside : i < words.length)
include inside

theorem grows_setWord (w : Word k) :
    Grows env (holding words cap flag) words.length
      ((setWord i w).run (holding words cap flag)) := by
  rw [run_setWord, if_pos inside]
  exact grows_stored length fits List.length_set

theorem grows_setConverted (converted : Option (Word k)) :
    Grows env (holding words cap flag) words.length
      ((setConverted i converted).run (holding words cap flag)) := by
  rw [run_setConverted, if_pos inside]
  exact grows_stored length fits List.length_set

end

end

end Column

namespace Operation

variable {k : Kind} {env : Environment} {c : Column k} {m : Nat}

/-- The number of elements that an operation needs room for in all, if it can fail for lack of room
only. -/
def demand (c : Column k) : Operation k → Option Nat
  | ensureCapacity minimum => some minimum
  | addWord _ | addValue _ | addInt _ | addDouble _ | addText _ | addUnit _ | addScalar _ =>
    some (c.size + 1)
  | addWords words => some (c.size + words.length)
  | addWordCopies n _ | addValueCopies n _ | addIntCopies n _ | addDoubleCopies n _
  | addTextCopies n _ | addScalarCopies n _ => some (c.size + n)
  | insertWord i _ | insertValue i _ | insertText i _ =>
    if i ≤ c.size then some (c.size + 1) else none
  | setWord i _ | setValue i _ | setInt i _ | setDouble i _ | setText i _ | setScalar i _ =>
    if i < c.size then some c.size else none
  | _ => none

/-- An operation that needs room gets it and succeeds, or is refused it and fails. -/
theorem grows {op : Operation k} (asks : op.demand c = some m) (formed : c.WellFormed) :
    c.Grows env m ((op.run env).run c) := by
  obtain ⟨words, cap, flag, length, fits, raised, rfl⟩ := Column.wellFormed_iff.mp formed
  cases op with
  | ensureCapacity minimum =>
    exact (Column.grows_ensureCapacity length fits minimum).done asks
  | addWord w => exact (Column.grows_addWord length fits w).done asks
  | addValue v => exact (Column.grows_addWord length fits _).done asks
  | addInt v => exact (Column.grows_addConverted length fits _).done asks
  | addDouble x => exact (Column.grows_addConverted length fits _).done asks
  | addText s => exact (Column.grows_addConverted length fits _).done asks
  | addUnit u => exact (Column.grows_addConverted length fits _).done asks
  | addScalar s => exact (Column.grows_addConverted length fits _).done asks
  | addWords more => exact (Column.grows_addWords length fits more).done asks
  | addWordCopies n w => exact (Column.grows_addCopies length fits n w).done asks
  | addValueCopies n v => exact (Column.grows_addCopies length fits n _).done asks
  | addIntCopies n v => exact (Column.grows_addConvertedCopies length fits n _).done asks
  | addDoubleCopies n x => exact (Column.grows_addConvertedCopies length fits n _).done asks
  | addTextCopies n s => exact (Column.grows_addConvertedCopies length fits n _).done asks
  | addScalarCopies n s => exact (Column.grows_addConvertedCopies length fits n _).done asks
  | insertWord i w => exact .done_of_inside (Column.grows_insertWord length fits · w) asks
  | insertValue i v => exact .done_of_inside (Column.grows_insertWord length fits · _) asks
  | insertText i s => exact .done_of_inside (Column.grows_insertText length fits · s) asks
  | setWord i w => exact .done_of_inside (Column.grows_setWord length fits · w) asks
  | setValue i v => exact .done_of_inside (Column.grows_setWord length fits · _) asks
  | setInt i v => exact .done_of_inside (Column.grows_setConverted length fits · _) asks
  | setDouble i x => exact .done_of_inside (Column.grows_setConverted length fits · _) asks
  | setText i s => exact .done_of_inside (Column.grows_setConverted length fits · _) asks
  | setScalar i s => exact .done_of_inside (Column.grows_setConverted length fits · _) asks
  | _ => cases asks

end Operation

namespace Column

variable {k : Kind} {env : Environment} {c : Column k} {m : Nat}

/-- A buffer that a column grows into is refused for its size beyond the limit, or because the
allocator has no memory for it. -/
theorem not_refuses_grownCapacity_iff {cap : Nat} (grows : cap < m) (fits : ¬ env.Forbids k m) :
    ¬ env.Refuses k (grownCapacity cap m) ↔
      ¬ env.Forbids k (doubled cap) ∧ env.grants (grownCapacity cap m * k.slotBytes) = true := by
  have some_slots : grownCapacity cap m ≠ 0 := by
    have enough := le_grownCapacity cap m
    omega
  rw [Environment.Refuses, forbids_grownCapacity_iff fits]
  simp [some_slots]

/-- An operation that asks for what the limits allow succeeds exactly if there are slots enough, or
if double the capacity is within the memory limit, too, and the allocator has it. All that can stop
it is the memory that the larger buffer would take, and then nothing has changed. -/
theorem Reachable.grows_iff {op : Operation k} (h : Reachable env c) (asks : op.demand c = some m)
    (allowed : m ≤ maxSize) (fits : ¬ env.Forbids k m) :
    ((∃ a d, (op.run env).run c = .ok a d) ↔
      m ≤ c.capacity ∨ ¬ env.Forbids k (doubled c.capacity) ∧
        env.grants (grownCapacity c.capacity m * k.slotBytes) = true) ∧
    (∀ a d, (op.run env).run c = .ok a d → d.capacity = capacityFor c.capacity m) ∧
    ∀ e d, (op.run env).run c = .error e d →
      e = .outOfMemory k (grownCapacity c.capacity m * k.slotBytes) ∧ d = c ∧
        (env.Forbids k (doubled c.capacity) →
          e = .outOfMemory k (doubled c.capacity * k.slotBytes)) := by
  have result : c.Grows env m ((op.run env).run c) := op.grows asks h.wellFormed
  generalize (op.run env).run c = r at result ⊢
  have room : (m ≤ c.capacity ∨ ¬ env.Refuses k (grownCapacity c.capacity m)) ↔
      m ≤ c.capacity ∨ ¬ env.Forbids k (doubled c.capacity) ∧
        env.grants (grownCapacity c.capacity m * k.slotBytes) = true := by
    by_cases enough : m ≤ c.capacity
    · simp [enough]
    · rw [not_refuses_grownCapacity_iff (Nat.lt_of_not_le enough) fits]
  rw [← room]
  cases result with
  | refused e refused =>
    rw [refusal_eq_of_le_maxSize allowed] at refused
    split at refused
    case isTrue => cases refused
    case isFalse denied =>
      cases refused
      refine ⟨by simp [denied], by simp, ?_⟩
      rintro _ _ ⟨⟩
      refine ⟨rfl, rfl, fun forbidden => ?_⟩
      rw [grownCapacity_of_forbids fits ((forbids_grownCapacity_iff fits).mpr forbidden)]
  | granted a granted capacity =>
    rw [refusal_eq_of_le_maxSize allowed] at granted
    split at granted
    case isTrue given => simp [given, capacity]
    case isFalse => cases granted

/-- Double the capacity of the byte column is just the memory that is allowed. -/
theorem grows_to_whole_limit :
    ∃ c d : Column .byte, withCapacity .megabyte .byte 524288 = .ok c ∧
      ((Operation.ensureCapacity 524289).run .megabyte).run c = .ok .done d ∧
      d.capacity = 1048576 := by
  have within (n : Nat) (less : n * 1 ≤ 1048576) : ¬ Config.megabyte.Forbids .byte n :=
    Config.not_forbids_megabyte_iff.mpr less
  have free : ¬ Environment.megabyte.Refuses .byte 524288 :=
    Environment.not_refuses_megabyte (by decide)
  have allowed : 524288 ≤ maxSize := by decide
  obtain ⟨c, made, -, capacity⟩ := withCapacity_of_not_refuses allowed free
  have reached : Reachable .megabyte c := .withCapacity 524288 made
  have asks : (Operation.ensureCapacity 524289).demand c = some 524289 := rfl
  obtain ⟨granted, grown, -⟩ := Reachable.grows_iff reached asks (by decide) (within _ (by decide))
  rw [capacity] at granted grown
  obtain ⟨a, d, run⟩ := granted.mpr (.inr ⟨within _ (by decide), rfl⟩)
  obtain rfl : a = .done := by
    obtain ⟨_, _, _, ⟨⟩⟩ := run_bind_eq_ok_iff.mp run
    rfl
  exact ⟨c, d, made, run, grown _ d run⟩

/-- Both the buffer of a byte column and the one that is asked for are within the limit. -/
theorem refused_within_limit :
    ∃ c : Column .byte, Reachable .megabyte c ∧ c.capacity = 600000 ∧
      ¬ Config.megabyte.Forbids .byte c.capacity ∧
      600001 ≤ maxSize ∧ ¬ Config.megabyte.Forbids .byte 600001 ∧
      (ensureCapacity .megabyte 600001).run c = .error (.outOfMemory .byte 1200000) c := by
  have within (n : Nat) (less : n * 1 ≤ 1048576) : ¬ Config.megabyte.Forbids .byte n :=
    Config.not_forbids_megabyte_iff.mpr less
  have fits : 600000 ≤ maxSize := by decide
  have free : ¬ Environment.megabyte.Refuses .byte 600000 :=
    Environment.not_refuses_megabyte (by decide)
  obtain ⟨c, made, held, capacity⟩ := withCapacity_of_not_refuses fits free
  have denied : refusal .megabyte .byte 600000 600001 = some (.outOfMemory .byte 1200000) := by
    decide
  refine ⟨c, .withCapacity 600000 made, capacity, ?_, by decide, within _ (by decide), ?_⟩
  · rw [capacity]
    exact within _ (by decide)
  · rw [held, run_ensureCapacity (Nat.zero_le _) fits, denied]

end Column

end Columnar

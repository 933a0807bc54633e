import Columnar.Proofs.Holding

/-!
# Room in a column

`refusal` says why a column cannot be given room for a number of elements, and `capacityFor` which
capacity it has once it was given room. Every edit that adds elements makes room first and then
stores, so the only way in which it fails for lack of room is the one that `refusal` names.
-/

namespace Columnar

theorem bind_eq_ok {ε α β : Type} {x : Except ε α} {f : α → Except ε β} {b : β} :
    (x >>= f) = .ok b ↔ ∃ a, x = .ok a ∧ f a = .ok b := by
  cases x <;> simp [bind, Except.bind]

/-- A sequence of two actions succeeds when both of them do. -/
theorem run_bind_eq_ok_iff {ε σ α β : Type} {x : EStateM ε σ α} {f : α → EStateM ε σ β} {s t : σ}
    {b : β} :
    (x >>= f).run s = .ok b t ↔ ∃ a u, x.run s = .ok a u ∧ (f a).run u = .ok b t := by
  rw [EStateM.run_bind]
  cases x.run s <;> simp [and_assoc]

namespace Edit

variable {k : Kind} {α : Type}

@[simp] theorem run_liftM (r : Except ColumnError α) (c : Column k) :
    EStateM.run (liftM r : Edit k α) c =
      match r with
      | .ok a => .ok a c
      | .error e => .error e c := by
  cases r <;> rfl

@[simp] theorem run_throw (e : ColumnError) (c : Column k) :
    EStateM.run (throw e : Edit k α) c = .error e c := rfl

@[simp] theorem run_ite (p : Prop) [Decidable p] (e f : Edit k α) (c : Column k) :
    EStateM.run (if p then e else f) c = if p then e.run c else f.run c :=
  apply_ite (EStateM.run · c) p e f

@[simp] theorem run_map {β : Type} (f : α → β) (e : Edit k α) (c : Column k) :
    EStateM.run (f <$> e) c =
      match e.run c with
      | .ok a d => .ok (f a) d
      | .error err d => .error err d := by
  rw [map_eq_pure_bind, EStateM.run_bind]
  cases e.run c <;> rfl

end Edit

/-! ## Memory -/

/-- A buffer for so many elements of the kind takes more memory than is allowed. -/
def Config.Forbids (cfg : Config) (k : Kind) (count : Nat) : Prop :=
  ∃ limit, cfg.memoryLimitBytes = some limit ∧ limit < count * k.slotBytes

/-- There is no memory for a buffer for so many elements of the kind: it takes more than is allowed,
or more than the allocator has. -/
def Environment.Refuses (env : Environment) (k : Kind) (count : Nat) : Prop :=
  env.Forbids k count ∨ count ≠ 0 ∧ env.grants (count * k.slotBytes) = false

theorem Config.Forbids.mono {cfg : Config} {k : Kind} {m n : Nat} (forbidden : cfg.Forbids k m)
    (more : m ≤ n) : cfg.Forbids k n := by
  obtain ⟨limit, limited, beyond⟩ := forbidden
  exact ⟨limit, limited, Nat.lt_of_lt_of_le beyond (Nat.mul_le_mul_right _ more)⟩

instance (cfg : Config) (k : Kind) (count : Nat) : Decidable (cfg.Forbids k count) :=
  decidable_of_iff (cfg.memoryLimitBytes.any (· < count * k.slotBytes) = true) <| by
    simp [Config.Forbids, Option.any_eq_true]

instance (env : Environment) (k : Kind) (count : Nat) : Decidable (env.Refuses k count) :=
  inferInstanceAs (Decidable (_ ∨ _))

/-- An empty buffer takes no memory. -/
theorem Environment.Refuses.count_pos {env : Environment} {k : Kind} {count : Nat}
    (refused : env.Refuses k count) : 0 < count := by
  rcases refused with ⟨limit, -, beyond⟩ | ⟨some_slots, -⟩
  · exact Nat.pos_of_mul_pos_right (Nat.zero_lt_of_lt beyond)
  · exact Nat.pos_of_ne_zero some_slots

/-- Without a limit, an allocator that refuses nothing leaves nothing to refuse. -/
theorem Environment.not_refuses_default {k : Kind} {count : Nat} : ¬ Refuses {} k count := by
  rintro (⟨limit, ⟨⟩, -⟩ | ⟨-, ⟨⟩⟩)

/-- What fails for want of memory alone succeeds where nothing is refused. -/
theorem Environment.exists_eq_ok {α : Type} {r : Except ColumnError α} {k : Kind} {count : Nat}
    (refused : (∃ e, r = .error e) → Refuses {} k count) : ∃ a, r = .ok a := by
  cases r with
  | ok a => exact ⟨a, rfl⟩
  | error e => exact absurd (refused ⟨e, rfl⟩) not_refuses_default

namespace Column

variable {k : Kind} {env : Environment} {words : List (Word k)} {cap needed : Nat} {flag : Bool}

theorem checkSize_eq_ok_iff {requested : Nat} :
    checkSize k requested = .ok () ↔ requested ≤ maxSize := by
  have small : maxSize < 2 ^ 64 := by decide
  unfold checkSize
  split
  case isTrue overflow => simpa using Nat.lt_of_lt_of_le small overflow
  split
  case isTrue large => simpa using large
  case isFalse fits => simpa using fits

theorem checkBudget_eq {cfg : Config} {count : Nat} :
    checkBudget cfg k count =
      if cfg.Forbids k count then .error (.outOfMemory k (count * k.slotBytes)) else .ok () := by
  unfold checkBudget
  cases limited : cfg.memoryLimitBytes <;> simp [Config.Forbids, limited]

theorem checkMemory_of_refuses {count : Nat} (refused : env.Refuses k count) :
    checkMemory env k count = .error (.outOfMemory k (count * k.slotBytes)) := by
  rw [checkMemory, checkBudget_eq]
  split
  case isTrue => rfl
  case isFalse free => exact if_pos (refused.resolve_left free)

theorem checkMemory_of_not_refuses {count : Nat} (free : ¬ env.Refuses k count) :
    checkMemory env k count = .ok () := by
  obtain ⟨allowed, granted⟩ := not_or.mp free
  rw [checkMemory, checkBudget_eq, if_neg allowed]
  exact if_neg granted

theorem checkMemory_eq_error_iff {count : Nat} :
    (∃ e, checkMemory env k count = .error e) ↔ env.Refuses k count := by
  by_cases refused : env.Refuses k count
  · simp [checkMemory_of_refuses refused, refused]
  · simp [checkMemory_of_not_refuses refused, refused]

/-- Capacity of a column that has been given room for `needed` elements in all. -/
def capacityFor (cap needed : Nat) : Nat := if needed ≤ cap then cap else grownCapacity cap needed

/-- Why a column is not given room for `needed` elements in all. -/
def refusal (env : Environment) (k : Kind) (cap needed : Nat) : Option ColumnError :=
  match checkSize k needed with
  | .error e => some e
  | .ok () =>
    if needed ≤ cap then none
    else
      match checkMemory env k (grownCapacity cap needed) with
      | .ok () => none
      | .error e => some e

/-- There is room for `n` more elements: so many are allowed, and if the column has to grow for
them, there is memory for its new buffer. -/
structure HasRoom (env : Environment) (c : Column k) (n : Nat) : Prop where
  size_le : c.size + n ≤ maxSize
  within : c.capacity < c.size + n → ¬ env.Refuses k (grownCapacity c.capacity (c.size + n))

/-- Where nothing is refused, a column can grow to the largest size. -/
theorem HasRoom.of_size_le {c : Column k} {n : Nat} (fits : c.size + n ≤ maxSize) :
    c.HasRoom {} n :=
  ⟨fits, fun _ => Environment.not_refuses_default⟩

theorem le_grownCapacity (cap needed : Nat) : needed ≤ grownCapacity cap needed := by
  unfold grownCapacity
  omega

theorem grownCapacity_le (h : needed ≤ maxSize) : grownCapacity cap needed ≤ maxSize := by
  unfold grownCapacity
  omega

theorem le_capacityFor (cap needed : Nat) : needed ≤ capacityFor cap needed := by
  unfold capacityFor
  split
  · assumption
  · exact le_grownCapacity cap needed

theorem capacity_le_capacityFor (cap needed : Nat) : cap ≤ capacityFor cap needed := by
  unfold capacityFor
  split
  · exact Nat.le_refl cap
  · have := le_grownCapacity cap needed
    omega

theorem capacityFor_of_le (h : needed ≤ cap) : capacityFor cap needed = cap := by
  rw [capacityFor, if_pos h]

theorem refusal_eq_of_le_maxSize (allowed : needed ≤ maxSize) :
    refusal env k cap needed =
      if needed ≤ cap ∨ ¬ env.Refuses k (grownCapacity cap needed) then none
      else some (.outOfMemory k (grownCapacity cap needed * k.slotBytes)) := by
  rw [refusal, checkSize_eq_ok_iff.mpr allowed]
  by_cases enough : needed ≤ cap
  · simp [enough]
  by_cases refused : env.Refuses k (grownCapacity cap needed)
  · simp [enough, refused, checkMemory_of_refuses refused]
  · simp [enough, refused, checkMemory_of_not_refuses refused]

theorem le_of_refusal_eq_none (h : refusal env k cap needed = none) : needed ≤ maxSize := by
  unfold refusal at h
  split at h
  case h_1 => cases h
  case h_2 fits => exact checkSize_eq_ok_iff.mp fits

theorem capacityFor_le (h : refusal env k cap needed = none) (fits : cap ≤ maxSize) :
    capacityFor cap needed ≤ maxSize := by
  unfold capacityFor
  split
  · exact fits
  · exact grownCapacity_le (le_of_refusal_eq_none h)

theorem refusal_of_le (h : needed ≤ cap) (fits : cap ≤ maxSize) :
    refusal env k cap needed = none := by
  rw [refusal_eq_of_le_maxSize (Nat.le_trans h fits), if_pos (.inl h)]

/-- A column has room exactly when it is not refused any. -/
theorem refusal_eq_none_iff {c : Column k} {n : Nat} :
    refusal env k c.capacity (c.size + n) = none ↔ c.HasRoom env n := by
  constructor
  · intro granted
    have allowed := le_of_refusal_eq_none granted
    rw [refusal_eq_of_le_maxSize allowed, ite_eq_left_iff] at granted
    refine ⟨allowed, fun grows refused => ?_⟩
    cases granted (not_or.mpr ⟨Nat.not_le.mpr grows, not_not_intro refused⟩)
  · rintro ⟨allowed, within⟩
    rw [refusal_eq_of_le_maxSize allowed]
    exact if_pos ((Nat.lt_or_ge _ _).symm.imp_right within)

/-! ## Making room -/

theorem allocate_of_le {count : Nat} (h : count ≤ maxSize) :
    allocate env k count =
      match checkMemory env k count with
      | .ok () => .ok (Array.replicate count (Word.zero k))
      | .error e => .error e := by
  rw [allocate, checkSize_eq_ok_iff.mpr h]
  cases checkMemory env k count <;> rfl

theorem run_ensureCapacity (length : words.length ≤ cap) (fits : cap ≤ maxSize) :
    (ensureCapacity env needed).run (holding words cap flag) =
      match refusal env k cap needed with
      | some e => .error e (holding words cap flag)
      | none => .ok () (holding words (capacityFor cap needed) flag) := by
  simp only [ensureCapacity, EStateM.run_bind, EStateM.run_get, capacity_holding length,
    Edit.run_ite, Edit.run_liftM]
  by_cases enough : needed ≤ cap
  · rw [if_neg (by omega), refusal_of_le enough fits, capacityFor_of_le enough]
    rfl
  rw [if_pos (by omega), refusal, capacityFor, if_neg enough]
  cases sized : checkSize k needed with
  | error e => simp
  | ok =>
    have allowed := checkSize_eq_ok_iff.mp sized
    rw [allocate_of_le (grownCapacity_le allowed)]
    cases checkMemory env k (grownCapacity cap needed) with
    | ok => simp [enough, moveInto_holding]
    | error e => simp

theorem run_reserve {n : Nat} (length : words.length ≤ cap) (fits : cap ≤ maxSize) :
    (reserve env n).run (holding words cap flag) =
      match refusal env k cap (words.length + n) with
      | some e => .error e (holding words cap flag)
      | none => .ok () (holding words (capacityFor cap (words.length + n)) flag) := by
  simp only [reserve, EStateM.run_bind, EStateM.run_get, size_holding, Edit.run_liftM]
  cases sized : checkSize k (words.length + n) with
  | error e => simp [refusal, sized]
  | ok => exact run_ensureCapacity length fits

/-- Nothing is asked for while there is a spare slot, which makes no difference. -/
theorem run_reserveOne (length : words.length ≤ cap) (fits : cap ≤ maxSize) :
    (reserveOne env).run (holding words cap flag) =
      match refusal env k cap (words.length + 1) with
      | some e => .error e (holding words cap flag)
      | none => .ok () (holding words (capacityFor cap (words.length + 1)) flag) := by
  simp only [reserveOne, EStateM.run_bind, EStateM.run_get, Edit.run_ite, isFull, size_holding,
    capacity_holding length, beq_iff_eq]
  by_cases full : words.length = cap
  · rw [if_pos full, run_reserve length fits]
  · have spare : words.length + 1 ≤ cap := by omega
    rw [if_neg full, refusal_of_le spare fits, capacityFor_of_le spare]
    rfl

/-- Trimming gives up the spare slots and nothing else. -/
theorem run_trimToSize :
    trimToSize.run (holding words cap flag) = .ok () (holding words words.length flag) := by
  simp [trimToSize, holding]

end Column

end Columnar

import Columnar.Column.Operation
import Columnar.Proofs.Ingesting

/-!
# What operations come to

Every operation on a well-formed column either fails and leaves the column as it was, or succeeds
and leaves a well-formed column, which has lost capacity only if it was trimmed. Edit by edit it is
shown in which shape the column is left; everything else follows from the shape.

## Main definitions

* `Column.Ends`: the shapes in which an edit other than trimming leaves a column.
* `Column.Outcome`: what that means to a caller.
* `Operation.after`: the column that an operation leaves behind.
-/

namespace Columnar

namespace Feed

variable {k : Kind} {α : Type}

@[simp] theorem run_ofReader (r : Reader α) (s : Intake k) :
    (ofReader r).run s =
      match r.run s.input with
      | .ok a input => .ok a { s with input }
      | .error e input => .error e { s with input } := rfl

@[simp] theorem run_ofEdit (e : Edit k α) (s : Intake k) :
    (ofEdit e).run s =
      match e.run s.column with
      | .ok a column => .ok a { s with column }
      | .error err column => .error err { s with column } := rfl

theorem run_ofReader_eq_ok_iff {r : Reader α} {c d : Column k} {input rest : List UInt8} {a : α} :
    (ofReader r).run ⟨c, input⟩ = .ok a ⟨d, rest⟩ ↔ r.run input = .ok a rest ∧ d = c := by
  rw [run_ofReader]
  cases r.run input with
  | error err left => simp
  | ok b left =>
    constructor
    · rintro ⟨⟩
      exact ⟨rfl, rfl⟩
    · rintro ⟨⟨⟩, rfl⟩
      rfl

theorem run_ofEdit_eq_ok_iff {e : Edit k α} {c d : Column k} {input rest : List UInt8} {a : α} :
    (ofEdit e).run ⟨c, input⟩ = .ok a ⟨d, rest⟩ ↔ e.run c = .ok a d ∧ rest = input := by
  rw [run_ofEdit]
  cases e.run c with
  | error err left => simp
  | ok b left =>
    constructor
    · rintro ⟨⟩
      exact ⟨rfl, rfl⟩
    · rintro ⟨⟨⟩, rfl⟩
      rfl

@[simp] theorem run_toEdit (f : Feed k α) (input : List UInt8) (c : Column k) :
    (f.toEdit input).run c =
      match f.run ⟨c, input⟩ with
      | .ok a s => .ok a s.column
      | .error e s => .error e s.column := rfl

end Feed

namespace Column

variable {k : Kind} {α β : Type}

/-- The ways in which an edit of `c` may end. -/
inductive Outcome (c : Column k) : EStateM.Result ColumnError (Column k) α → Prop where
  | failed (e : ColumnError) : Outcome c (.error e c)
  | done (a : α) {d : Column k} (formed : d.WellFormed) (kept : c.capacity ≤ d.capacity) :
      Outcome c (.ok a d)

theorem length_moved {first last destination : Nat} {l : List α} (h₁ : first ≤ last)
    (h₂ : last ≤ l.length) (h₃ : destination ≤ l.length) :
    (moved first last destination l).length = l.length := by
  unfold moved
  split
  · exact length_exchange (by omega) h₁ h₂
  split
  · exact length_exchange h₁ (by omega) h₃
  · rfl

/-- The ways in which an edit may end of the column that holds `words`. It fails and leaves the
column alone, or other words are held in the same buffer, or in the one that the column is granted
for so many elements as are needed. The flag is not lowered. -/
inductive Ends (env : Environment) (words : List (Word k)) (cap : Nat) (flag : Bool) :
    EStateM.Result ColumnError (Column k) α → Prop where
  | failed (e : ColumnError) : Ends env words cap flag (.error e (holding words cap flag))
  | kept (a : α) {new : List (Word k)} {up : Bool} (shorter : new.length ≤ cap)
    (monotone : flag = true → up = true) : Ends env words cap flag (.ok a (holding new cap up))
  | grown (a : α) {new : List (Word k)} {needed : Nat} {up : Bool}
    (granted : refusal env k cap needed = none) (enough : new.length ≤ capacityFor cap needed)
    (monotone : flag = true → up = true) :
    Ends env words cap flag (.ok a (holding new (capacityFor cap needed) up))

section

variable {env : Environment} {words new : List (Word k)} {cap : Nat} {flag up : Bool}

theorem Ends.outcome {r : EStateM.Result ColumnError (Column k) α} (h : Ends env words cap flag r)
    (length : words.length ≤ cap) (fits : cap ≤ maxSize)
    (raised : k.missingFixed = true → flag = true) : Outcome (holding words cap flag) r := by
  cases h with
  | failed e => exact .failed e
  | kept a shorter monotone =>
    refine .done a (wellFormed_holding shorter fits fun h => monotone (raised h)) ?_
    exact Nat.le_of_eq ((capacity_holding length).trans (capacity_holding shorter).symm)
  | @grown a new needed up granted enough monotone =>
    refine .done a (wellFormed_holding enough (capacityFor_le granted fits)
      fun h => monotone (raised h)) ?_
    rw [capacity_holding length, capacity_holding enough]
    exact capacity_le_capacityFor cap needed

/-- What an edit returns makes no difference to the column. -/
theorem Ends.answer {a : α} {d : Column k} (h : Ends env words cap flag (.ok a d)) (b : β) :
    Ends env words cap flag (.ok b d) := by
  cases h with
  | kept _ shorter monotone => exact .kept b shorter monotone
  | grown _ granted enough monotone => exact .grown b granted enough monotone

theorem Ends.map {e : Edit k α} (f : α → β)
    (h : Ends env words cap flag (e.run (holding words cap flag))) :
    Ends env words cap flag ((f <$> e).run (holding words cap flag)) := by
  rw [Edit.run_map]
  generalize e.run (holding words cap flag) = result at h
  cases result with
  | ok a d => exact h.answer (f a)
  | error e d =>
    cases h
    exact .failed e

theorem ends_enlarge (monotone : flag = true → up = true) :
    Ends env words cap flag (enlarge env words new cap flag up) := by
  unfold enlarge
  cases room : refusal env k cap new.length with
  | some e => exact .failed e
  | none => exact .grown () room (le_capacityFor cap new.length) monotone

/-! ## Storing and rearranging -/

section

variable (length : words.length ≤ cap)
include length

theorem ends_setWord (i : Nat) (w : Word k) :
    Ends env words cap flag ((setWord i w).run (holding words cap flag)) := by
  rw [run_setWord]
  split
  · exact .kept () (by simpa using length) id
  · exact .failed _

theorem ends_removeWord (i : Nat) :
    Ends env words cap flag ((removeWord i).run (holding words cap flag)) := by
  rw [run_removeWord length]
  cases words[i]? with
  | none => exact .failed _
  | some w =>
    have fewer := (List.eraseIdx_sublist words i).length_le
    exact .kept w (by omega) id

theorem ends_removeScalar (i : Nat) :
    Ends env words cap flag ((removeScalar i).run (holding words cap flag)) := by
  have removed : Ends env words cap flag ((removeWord i).run (holding words cap flag)) :=
    ends_removeWord length i
  simp only [removeScalar, EStateM.run_bind, EStateM.run_get, Edit.run_liftM]
  cases (holding words cap flag).scalarAt i with
  | error e => exact .failed e
  | ok s =>
    dsimp only
    generalize (removeWord i).run (holding words cap flag) = result at removed ⊢
    cases result with
    | ok w d => exact removed.answer s
    | error e d =>
      cases removed
      exact .failed e

theorem ends_removeRange (start stop : Nat) :
    Ends env words cap flag ((removeRange start stop).run (holding words cap flag)) := by
  rw [run_removeRange length]
  split
  · exact .failed _
  split
  · exact .failed _
  · exact .kept () (by grind) id

theorem ends_clear : Ends env words cap flag (clear.run (holding words cap flag)) := by
  rw [run_clear length]
  exact .kept () (Nat.zero_le cap) id

theorem ends_justKeep (mask : List Bool) :
    Ends env words cap flag ((justKeep mask).run (holding words cap flag)) := by
  rw [run_justKeep length]
  exact .kept () (Nat.le_trans (length_selected_le mask words) length) id

theorem ends_moveRange (first last destination : Nat) :
    Ends env words cap flag ((moveRange first last destination).run (holding words cap flag)) := by
  rw [run_moveRange]
  split
  · exact .failed _
  split
  · exact .failed _
  split
  · exact .failed _
  split
  · exact .failed _
  · have same : (moved first last destination words).length = words.length :=
      length_moved (by omega) (by omega) (by omega)
    exact .kept () (by omega) id

theorem ends_copyWithin (source target : Nat) :
    Ends env words cap flag ((copyWithin source target).run (holding words cap flag)) := by
  rw [run_copyWithin]
  split
  · exact .failed _
  split
  · exact .kept () (by simpa using length) id
  · exact .failed _

theorem ends_reverse : Ends env words cap flag (reverse.run (holding words cap flag)) := by
  rw [run_reverse length]
  exact .kept () (by simpa using length) id

theorem ends_sort : Ends env words cap flag ((sort env).run (holding words cap flag)) := by
  rw [run_sort length]
  have same := Word.length_sortWords (env.sorter (env.parallelSortThreshold ≤ words.length)) words
  exact .kept () (by omega) id

theorem ends_mapWords (f : Word k → Word k) :
    Ends env words cap flag
      ((modify (mapWords f) : Edit k Unit).run (holding words cap flag)) := by
  rw [run_mapWords length]
  exact .kept () (by simpa using length) id

theorem ends_withFlag (up : Bool) :
    Ends env words cap flag
      ((modify (·.withFlag up) : Edit k Unit).run (holding words cap flag)) := by
  rw [EStateM.run_modify, withFlag_holding]
  exact .kept () length (by simp_all)

theorem ends_switchText (source target : String) :
    Ends env words cap flag ((switchText source target).run (holding words cap flag)) := by
  rw [run_switchText length]
  dsimp only
  split
  · exact .kept 0 length id
  · exact .kept _ (by simpa using length) (by simp_all)

theorem ends_setConverted (i : Nat) (converted : Option (Word k)) :
    Ends env words cap flag ((setConverted i converted).run (holding words cap flag)) := by
  rw [run_setConverted]
  split
  · exact .kept () (by simpa using length) (by simp_all)
  · exact .failed _

theorem ends_setFrom (i : Nat) (source : AnyColumn) (j : Nat) :
    Ends env words cap flag ((setFrom i source j).run (holding words cap flag)) := by
  rw [run_setFrom]
  split
  · split
    · exact .failed _
    · exact ends_setConverted length i _
  · exact .failed _

end

/-! ## Making room -/

section

variable (length : words.length ≤ cap) (fits : cap ≤ maxSize)
include length fits

/-- The second buffer of a rearrangement is as large as the first one. -/
theorem ends_reorder (rank : List Nat) :
    Ends env words cap flag ((reorder env rank).run (holding words cap flag)) := by
  rw [run_reorder length fits]
  split
  · exact .failed _
  split
  · exact .failed _
  split
  · exact .failed _
  · exact .kept () (by grind) id

theorem ends_ensureCapacity (minimum : Nat) :
    Ends env words cap flag ((ensureCapacity env minimum).run (holding words cap flag)) := by
  rw [run_ensureCapacity length fits]
  cases room : refusal env k cap minimum with
  | some e => exact .failed e
  | none =>
    have longer := capacity_le_capacityFor cap minimum
    exact .grown () room (by omega) id

theorem ends_addWord (w : Word k) :
    Ends env words cap flag ((addWord env w).run (holding words cap flag)) := by
  rw [run_addWord length fits]
  exact ends_enlarge id

theorem ends_addWords (more : List (Word k)) :
    Ends env words cap flag ((addWords env more).run (holding words cap flag)) := by
  rw [run_addWords length fits]
  exact ends_enlarge id

theorem ends_addCopies (n : Nat) (w : Word k) :
    Ends env words cap flag ((addCopies env n w).run (holding words cap flag)) := by
  rw [run_addCopies length fits]
  exact ends_enlarge id

theorem ends_insertWord (i : Nat) (w : Word k) :
    Ends env words cap flag ((insertWord env i w).run (holding words cap flag)) := by
  rw [run_insertWord length fits]
  split
  · exact .failed _
  · exact ends_enlarge id

theorem ends_addConverted (converted : Option (Word k)) :
    Ends env words cap flag ((addConverted env converted).run (holding words cap flag)) := by
  rw [run_addConverted length fits]
  exact ends_enlarge (by simp_all)

theorem ends_addConvertedCopies (n : Nat) (converted : Option (Word k)) :
    Ends env words cap flag
      ((addConvertedCopies env n converted).run (holding words cap flag)) := by
  rw [run_addConvertedCopies length fits]
  exact ends_enlarge (by simp_all)

theorem ends_insertText (i : Nat) (s : String) :
    Ends env words cap flag ((insertText env i s).run (holding words cap flag)) := by
  rw [run_insertText length fits]
  split
  · exact .failed _
  · exact ends_enlarge (by simp_all)

/-! ## Copies and decoded elements -/

theorem ends_addFrom (source : AnyColumn) (start count : Nat) :
    Ends env words cap flag ((addFrom env source start count).run (holding words cap flag)) := by
  rw [run_addFrom length fits]
  split
  · exact .failed _
  · exact ends_enlarge (by simp_all)

theorem ends_append (source : AnyColumn) :
    Ends env words cap flag ((append env source).run (holding words cap flag)) := by
  rw [run_append length fits]
  split
  · exact ends_enlarge (by simp_all)
  · exact ends_addFrom length fits source 0 source.column.size

theorem ends_appendRaw (source : AnyColumn) :
    Ends env words cap flag ((appendRaw env source).run (holding words cap flag)) := by
  rw [run_appendRaw length fits]
  split
  · exact .failed _
  · exact ends_enlarge id

/-- A failure to read leaves the column alone, and what was read is added in one step; whatever is
done after that changes nothing. -/
theorem ends_feed (r : Reader (List (Word k))) (last : Feed k α) (input : List UInt8)
    (still : ∀ s, ∃ a, last.run s = .ok a s) :
    Ends env words cap flag
      (((do
        let new ← Feed.ofReader r
        Feed.ofEdit (addWords env new)
        last : Feed k α).toEdit input).run (holding words cap flag)) := by
  simp only [Feed.run_toEdit, EStateM.run_bind, Feed.run_ofReader]
  cases r.run input with
  | error e left => exact .failed e
  | ok new left =>
    have added : Ends env words cap flag _ := ends_addWords length fits new
    simp only [Feed.run_ofEdit]
    generalize (addWords env new).run (holding words cap flag) = result at added ⊢
    cases result with
    | error e d =>
      cases added
      exact .failed e
    | ok u d =>
      obtain ⟨a, same⟩ := still ⟨d, left⟩
      simp only [same]
      exact added.answer a

theorem ends_readFrom (n : Nat) (input : List UInt8) :
    Ends env words cap flag (((readFrom env n).toEdit input).run (holding words cap flag)) := by
  simpa only [readFrom, bind_pure_unit] using
    ends_feed length fits (readStream k n) (pure ()) input fun _ => ⟨(), rfl⟩

theorem ends_internalizeDap (input : List UInt8) :
    Ends env words cap flag
      (((internalizeDap env).toEdit input).run (holding words cap flag)) :=
  ends_feed length fits (readVector k)
    (do return input.length - (← get).input.length) input fun _ => ⟨_, rfl⟩

end

end

end Column

namespace Operation

variable {k : Kind} {env : Environment} {c : Column k}

/-- The column that an operation leaves behind. -/
def after (env : Environment) (op : Operation k) (c : Column k) : Column k :=
  match (op.run env).run c with
  | .ok _ d => d
  | .error _ d => d

theorem done_eq_map (e : Edit k Unit) : done e = (fun _ => Answer.done) <$> e :=
  (map_eq_pure_bind _ e).symm

section

variable {words : List (Word k)} {cap : Nat} {flag : Bool}

theorem ends_done {e : Edit k Unit}
    (h : Column.Ends env words cap flag (e.run (Column.holding words cap flag))) :
    Column.Ends env words cap flag ((done e).run (Column.holding words cap flag)) := by
  rw [done_eq_map]
  exact h.map _

/-- Trimming gives up the spare slots. -/
theorem run_trimming :
    ((trimToSize : Operation k).run env).run (Column.holding words cap flag) =
      .ok .done (Column.holding words words.length flag) := by
  simp [run, done, Column.run_trimToSize]

/-- How an operation other than trimming ends, edit by edit. -/
theorem ends (op : Operation k) (untrimmed : op ≠ .trimToSize) (length : words.length ≤ cap)
    (fits : cap ≤ Column.maxSize) :
    Column.Ends env words cap flag ((op.run env).run (Column.holding words cap flag)) := by
  cases op with
  | setWord i w => exact ends_done (Column.ends_setWord length i w)
  | setValue i v => exact ends_done (Column.ends_setWord length i _)
  | addWord w => exact ends_done (Column.ends_addWord length fits w)
  | addWords more => exact ends_done (Column.ends_addWords length fits more)
  | addWordCopies n w => exact ends_done (Column.ends_addCopies length fits n w)
  | addValue v => exact ends_done (Column.ends_addWord length fits _)
  | addValueCopies n v => exact ends_done (Column.ends_addCopies length fits n _)
  | insertWord i w => exact ends_done (Column.ends_insertWord length fits i w)
  | insertValue i v => exact ends_done (Column.ends_insertWord length fits i _)
  | removeScalar i => exact (Column.ends_removeScalar length i).map _
  | removeValue i => exact ((Column.ends_removeWord length i).map _).map _
  | removeRange start stop =>
    exact ends_done (Column.ends_removeRange length start stop)
  | clear => exact ends_done (Column.ends_clear length)
  | ensureCapacity minimum =>
    exact ends_done (Column.ends_ensureCapacity length fits minimum)
  | trimToSize => exact absurd rfl untrimmed
  | moveRange first last destination =>
    exact ends_done (Column.ends_moveRange length first last destination)
  | justKeep mask => exact ends_done (Column.ends_justKeep length mask)
  | reorder rank => exact ends_done (Column.ends_reorder length fits rank)
  | copyWithin source target =>
    exact ends_done (Column.ends_copyWithin length source target)
  | reverse => exact ends_done (Column.ends_reverse length)
  | sort => exact ends_done (Column.ends_sort length)
  | swapByteOrder => exact ends_done (Column.ends_mapWords length _)
  | flipSigns => exact ends_done (Column.ends_mapWords length _)
  | raiseFlag => exact ends_done (Column.ends_withFlag length true)
  | withFlag up => exact ends_done (Column.ends_withFlag length up)
  | switchText source target =>
    exact (Column.ends_switchText length source target).map _
  | addInt v => exact ends_done (Column.ends_addConverted length fits _)
  | addDouble x => exact ends_done (Column.ends_addConverted length fits _)
  | addText s => exact ends_done (Column.ends_addConverted length fits _)
  | addUnit u => exact ends_done (Column.ends_addConverted length fits _)
  | addScalar s => exact ends_done (Column.ends_addConverted length fits _)
  | addIntCopies n v =>
    exact ends_done (Column.ends_addConvertedCopies length fits n _)
  | addDoubleCopies n x =>
    exact ends_done (Column.ends_addConvertedCopies length fits n _)
  | addTextCopies n s =>
    exact ends_done (Column.ends_addConvertedCopies length fits n _)
  | addScalarCopies n s =>
    exact ends_done (Column.ends_addConvertedCopies length fits n _)
  | setInt i v => exact ends_done (Column.ends_setConverted length i _)
  | setDouble i x => exact ends_done (Column.ends_setConverted length i _)
  | setText i s => exact ends_done (Column.ends_setConverted length i _)
  | setScalar i s => exact ends_done (Column.ends_setConverted length i _)
  | insertText i s => exact ends_done (Column.ends_insertText length fits i s)
  | append source => exact ends_done (Column.ends_append length fits source)
  | appendRaw source => exact ends_done (Column.ends_appendRaw length fits source)
  | addFrom source start count =>
    exact ends_done (Column.ends_addFrom length fits source start count)
  | setFrom i source j => exact ends_done (Column.ends_setFrom length i source j)
  | readFrom n input => exact ends_done (Column.ends_readFrom length fits n input)
  | internalizeDap input => exact (Column.ends_internalizeDap length fits input).map _

end

/-- What an operation other than trimming comes to: a well-formed column is the one that holds its
elements, which is what the edits are about. -/
theorem outcome (op : Operation k) (untrimmed : op ≠ .trimToSize) (formed : c.WellFormed) :
    c.Outcome ((op.run env).run c) := by
  obtain ⟨words, cap, flag, length, fits, raised, rfl⟩ := Column.wellFormed_iff.mp formed
  exact (op.ends untrimmed length fits).outcome length fits raised

/-- Whether it succeeds or fails, an operation other than trimming keeps the column well-formed and
its capacity. -/
theorem keeps (op : Operation k) (untrimmed : op ≠ .trimToSize) (formed : c.WellFormed) :
    (op.after env c).WellFormed ∧ c.capacity ≤ (op.after env c).capacity := by
  have result : c.Outcome ((op.run env).run c) := op.outcome untrimmed formed
  unfold after
  generalize (op.run env).run c = r at result ⊢
  cases result with
  | failed e => exact ⟨formed, Nat.le_refl _⟩
  | done a formed kept => exact ⟨formed, kept⟩

theorem wellFormed_after (op : Operation k) (formed : c.WellFormed) :
    (op.after env c).WellFormed := by
  by_cases trims : op = .trimToSize
  · subst trims
    obtain ⟨words, cap, flag, length, fits, raised, rfl⟩ := Column.wellFormed_iff.mp formed
    rw [after, run_trimming]
    exact Column.wellFormed_holding (Nat.le_refl _) (by omega) raised
  · exact (op.keeps trims formed).1

end Operation

end Columnar

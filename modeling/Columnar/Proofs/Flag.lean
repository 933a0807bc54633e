import Columnar.Proofs.Comparing
import Columnar.Proofs.Missing

/-!
# The flag of integer columns

The largest integer of a kind is a number like any other or means that the element is missing, and
one flag says which for all elements of a column. It goes up when a value has to be stored that the
kind lacks, when elements of another column come in that are missing there or that the kind lacks,
when a sentinel takes the place of another word by way of its text, and when the caller says so.
Nothing else touches the flag, and nothing lowers it.

`Operation.Raises` lists these cases. Every edit is shown to follow it, which is lifted to runs of
operations by induction.
-/

namespace Columnar

variable {k : Kind}

/-- The integer kinds by signedness. -/
@[elab_as_elim]
theorem Kind.integerCases {motive : (k : Kind) → k.isInteger = true → Prop}
    (signed : ∀ w, motive (.signed w) rfl) (unsigned : ∀ w, motive (.unsigned w) rfl) (k : Kind)
    (integer : k.isInteger = true) : motive k integer := by
  cases k with
  | signed w => exact signed w
  | unsigned w => exact unsigned w
  | floating | char | string => cases integer

/-- The integers that a kind can take in. -/
def Kind.InRange : Kind → Int → Prop
  | .signed w, v => w.minSigned ≤ v ∧ v ≤ w.maxSigned
  | .unsigned w, v => 0 ≤ v ∧ v ≤ w.maxUnsigned
  | .floating _, _ => True
  | .char, v => 0 ≤ v ∧ v ≤ 0xFFFF
  | .string, _ => True

instance (k : Kind) (v : Int) : Decidable (k.InRange v) :=
  match k with
  | .signed _ => inferInstanceAs (Decidable (_ ∧ _))
  | .unsigned _ => inferInstanceAs (Decidable (_ ∧ _))
  | .floating _ => inferInstanceAs (Decidable True)
  | .char => inferInstanceAs (Decidable (_ ∧ _))
  | .string => inferInstanceAs (Decidable True)

/-- A kind lacks an integer that is out of its range, and also one that is missing. -/
def Kind.Lacks (k : Kind) (v : Option Int) : Prop := ∀ n, v = some n → ¬ k.InRange n

/-- Only text and floating numbers do not travel to an integer kind as integers. -/
theorem Kind.route_to_integer {source : Kind} (integer : k.isInteger = true)
    (different : source ≠ k) :
    source.route k =
      match source with
      | .string => .text
      | .floating _ => .floating
      | _ => .integer := by
  rw [route, if_neg different]
  cases k <;> cases source <;> first | rfl | cases integer

namespace Word

theorem isNone_bind_ofInt_iff {v : Option Int} :
    (v.bind (ofInt k)).isNone = true ↔ k.Lacks v := by
  cases v with
  | none => simp [Kind.Lacks]
  | some n => cases k <;> simp [Kind.Lacks, Kind.InRange, ofInt]

theorem isNone_ofInt_iff {n : Int} : (ofInt k n).isNone = true ↔ k.Lacks (some n) :=
  isNone_bind_ofInt_iff (v := some n)

section Integer

variable (integer : k.isInteger = true)
include integer

theorem isNone_ofDouble_iff {x : Binary .double} :
    (ofDouble k x).isNone = true ↔ k.Lacks x.roundHalfUp := by
  rw [← isNone_bind_ofInt_iff]
  cases k <;> first | rfl | cases integer

/-- A text enters an integer kind as the integer that it is read as. -/
theorem ofText_eq (s : String) :
    ofText k s = (Numeral.integerOfText s.toList).bind (ofInt k) := by
  cases k <;> first | rfl | cases integer

theorem isNone_ofText_iff {s : String} :
    (ofText k s).isNone = true ↔ k.Lacks (Numeral.integerOfText s.toList) := by
  rw [ofText_eq integer, isNone_bind_ofInt_iff]

theorem isNone_ofUnit_iff {u : CodeUnit} :
    (ofUnit k u).isNone = true ↔ k.Lacks (some u.toNat) := by
  rw [← isNone_ofInt_iff]
  cases k <;> first | rfl | cases integer

theorem isNone_toWord_iff {s : Scalar} : (s.toWord k).isNone = true ↔ k.Lacks s.toInt := by
  unfold Scalar.toWord Scalar.toInt
  cases s.payload with
  | missing => simp [Kind.Lacks]
  | integer v => exact isNone_ofInt_iff
  | floating x => exact isNone_ofDouble_iff integer
  | unit u => exact isNone_ofUnit_iff integer
  | text t => exact isNone_ofText_iff integer

theorem not_lacks_toInt (w : Word k) : ¬ k.Lacks w.toInt := by
  intro lacks
  cases k, integer using Kind.integerCases with
  | signed b => exact lacks _ rfl (b.toInt_bounds w)
  | unsigned b => exact lacks _ rfl (b.toNat_bounds w)

/-- Whatever the route from another kind, what counts is the integer that a word stands for. -/
theorem isNone_cross_iff {source : Kind} (w : Word source) :
    (w.cross k w.valueText).isNone = true ↔ k.Lacks w.toInt := by
  unfold cross
  split
  case isTrue same =>
    subst same
    simpa using not_lacks_toInt integer w
  case isFalse different =>
    rw [Kind.route_to_integer integer different]
    cases source with
    | signed b => exact isNone_bind_ofInt_iff
    | unsigned b => exact isNone_bind_ofInt_iff
    | floating p => exact isNone_ofDouble_iff integer
    | char => exact isNone_bind_ofInt_iff
    | string => exact isNone_ofText_iff integer

end Integer

end Word

namespace Column

variable {α β : Type} {env : Environment} {c d : Column k}

/-- A copy into kind `target` loses an element that is missing or stands for no integer of it. -/
def LosesTo (c : Column k) (target : Kind) (w : Word k) : Prop :=
  c.readsMissing w = true ∨ target.Lacks w.toInt

theorem isNone_convertWord_iff {source : Kind} {c : Column source} (integer : k.isInteger = true)
    (w : Word source) : (c.convertWord k w).isNone = true ↔ c.LosesTo k w := by
  unfold convertWord LosesTo
  split
  case isTrue missing =>
    have none : Word.crossMissing source k = none := by
      unfold Word.crossMissing
      split
      · refine (Word.ofText_empty k).resolve_right fun ⟨_, fixed⟩ => ?_
        simp [Kind.missingFixed, integer] at fixed
      · rfl
    simp [none, missing]
  case isFalse present => simp [present, Word.isNone_cross_iff integer]

/-- How an edit leaves the flag: if it succeeds, up if it was up or if `raises` holds of the column
after the edit, and down otherwise; if it fails, as it was. -/
def FlagFollows (c : Column k) (raises : Column k → Prop) :
    EStateM.Result ColumnError (Column k) α → Prop
  | .ok _ d => d.flag = true ↔ c.flag = true ∨ raises d
  | .error _ d => d.flag = c.flag

@[simp] theorem flagFollows_ok {raises : Column k → Prop} {a : α} :
    c.FlagFollows raises (.ok a d) ↔ (d.flag = true ↔ c.flag = true ∨ raises d) := .rfl

@[simp] theorem flagFollows_error {raises : Column k → Prop} {e : ColumnError} :
    c.FlagFollows (α := α) raises (.error e d) ↔ d.flag = c.flag := .rfl

theorem FlagFollows.map {raises : Column k → Prop} {e : Edit k α} (f : α → β)
    (h : c.FlagFollows raises (e.run c)) : c.FlagFollows raises ((f <$> e).run c) := by
  rw [Edit.run_map]
  generalize e.run c = result at h
  cases result <;> exact h

theorem FlagFollows.done {raises : Column k → Prop} {e : Edit k Unit}
    (h : c.FlagFollows raises (e.run c)) : c.FlagFollows raises ((Operation.done e).run c) := by
  rw [Operation.done_eq_map]
  exact h.map _

section

variable {words new : List (Word k)} {cap : Nat} {flag up : Bool}

theorem flagFollows_enlarge {raises : Prop} (rule : up = true ↔ flag = true ∨ raises) :
    (holding words cap flag).FlagFollows (fun _ => raises) (enlarge env words new cap flag up) := by
  unfold enlarge
  split
  · rfl
  · exact rule

/-! ## Edits that leave the flag alone -/

theorem FlagFollows.kept {e : Edit k α} {a : α} (h : e.run c = .ok a d) (same : d.flag = c.flag) :
    c.FlagFollows (fun _ => False) (e.run c) := by
  rw [h, flagFollows_ok, or_false, same]

theorem FlagFollows.grown {e : Edit k Unit}
    (h : e.run (holding words cap flag) = enlarge env words new cap flag flag) :
    (holding words cap flag).FlagFollows (fun _ => False) (e.run (holding words cap flag)) := by
  rw [h]
  exact flagFollows_enlarge (by simp)

theorem flagFollows_setWord (i : Nat) (w : Word k) :
    (holding words cap flag).FlagFollows (fun _ => False)
      ((setWord i w).run (holding words cap flag)) := by
  rw [run_setWord]
  split <;> simp

theorem flagFollows_copyWithin (source target : Nat) :
    (holding words cap flag).FlagFollows (fun _ => False)
      ((copyWithin source target).run (holding words cap flag)) := by
  rw [run_copyWithin]
  split
  · rfl
  split <;> simp

theorem flagFollows_moveRange (first last destination : Nat) :
    (holding words cap flag).FlagFollows (fun _ => False)
      ((moveRange first last destination).run (holding words cap flag)) := by
  rw [run_moveRange]
  split
  · rfl
  split
  · rfl
  split
  · rfl
  split <;> simp

variable (length : words.length ≤ cap)
include length

theorem flagFollows_removeWord (i : Nat) :
    (holding words cap flag).FlagFollows (fun _ => False)
      ((removeWord i).run (holding words cap flag)) := by
  rw [run_removeWord length]
  split <;> simp

theorem flagFollows_removeScalar (i : Nat) :
    (holding words cap flag).FlagFollows (fun _ => False)
      ((removeScalar i).run (holding words cap flag)) := by
  have removed : (holding words cap flag).FlagFollows (fun _ => False) ((removeWord i).run _) :=
    flagFollows_removeWord length i
  simp only [removeScalar, EStateM.run_bind, EStateM.run_get, Edit.run_liftM]
  cases (holding words cap flag).scalarAt i with
  | error e => rfl
  | ok s =>
    dsimp only
    generalize (removeWord i).run (holding words cap flag) = result at removed ⊢
    cases result <;> exact removed

theorem flagFollows_removeRange (start stop : Nat) :
    (holding words cap flag).FlagFollows (fun _ => False)
      ((removeRange start stop).run (holding words cap flag)) := by
  rw [run_removeRange length]
  split
  · rfl
  split <;> simp

variable (fits : cap ≤ maxSize)
include fits

theorem flagFollows_ensureCapacity (minimum : Nat) :
    (holding words cap flag).FlagFollows (fun _ => False)
      ((ensureCapacity env minimum).run (holding words cap flag)) := by
  rw [run_ensureCapacity length fits]
  split <;> simp

theorem flagFollows_reorder (rank : List Nat) :
    (holding words cap flag).FlagFollows (fun _ => False)
      ((reorder env rank).run (holding words cap flag)) := by
  rw [run_reorder length fits]
  split
  · rfl
  split
  · rfl
  split <;> simp

theorem flagFollows_insertWord (i : Nat) (w : Word k) :
    (holding words cap flag).FlagFollows (fun _ => False)
      ((insertWord env i w).run (holding words cap flag)) := by
  rw [run_insertWord length fits]
  split
  · rfl
  · exact flagFollows_enlarge (by simp)

theorem flagFollows_appendRaw (source : AnyColumn) :
    (holding words cap flag).FlagFollows (fun _ => False)
      ((appendRaw env source).run (holding words cap flag)) := by
  rw [run_appendRaw length fits]
  split
  · rfl
  · exact flagFollows_enlarge (by simp)

/-- Elements that were read are added in one step, and what is done after that changes nothing. -/
theorem flagFollows_feed (r : Reader (List (Word k))) (last : Feed k α) (input : List UInt8)
    (still : ∀ s, ∃ a, last.run s = .ok a s) :
    (holding words cap flag).FlagFollows (fun _ => False)
      (((do
        let new ← Feed.ofReader r
        Feed.ofEdit (addWords env new)
        last : Feed k α).toEdit input).run (holding words cap flag)) := by
  simp only [Feed.run_toEdit, EStateM.run_bind, Feed.run_ofReader]
  cases r.run input with
  | error e left => rfl
  | ok new left =>
    have added : FlagFollows (holding words cap flag) _ ((addWords env new).run _) :=
      .grown (run_addWords length fits new)
    simp only [Feed.run_ofEdit]
    generalize (addWords env new).run (holding words cap flag) = result at added ⊢
    cases result with
    | error e d => exact added
    | ok u d =>
      obtain ⟨a, same⟩ := still ⟨d, left⟩
      simpa only [same, flagFollows_ok] using added

theorem flagFollows_readFrom (n : Nat) (input : List UInt8) :
    (holding words cap flag).FlagFollows (fun _ => False)
      (((readFrom env n).toEdit input).run (holding words cap flag)) := by
  simpa only [readFrom, bind_pure_unit] using
    flagFollows_feed length fits (readStream k n) (pure ()) input fun _ => ⟨(), rfl⟩

theorem flagFollows_internalizeDap (input : List UInt8) :
    (holding words cap flag).FlagFollows (fun _ => False)
      (((internalizeDap env).toEdit input).run (holding words cap flag)) :=
  flagFollows_feed length fits (readVector k)
    (do return input.length - (← get).input.length) input fun _ => ⟨_, rfl⟩

end

/-! ## Edits that may raise the flag -/

theorem sentinelAt_holding_eq_ok_iff {words : List (Word k)} {cap : Nat} {flag : Bool} {i : Nat}
    {b : Bool} : (holding words cap flag).sentinelAt i = .ok b ↔
      ∃ w, words[i]? = some w ∧ w.isSentinel = b := by
  refine bind_eq_ok.trans (exists_congr fun w => ?_)
  rw [wordAt_holding]
  cases words[i]? <;> simp [pure, Except.pure]

/-- Where equal words are replaced by a different one, some element becomes a sentinel exactly if
some element is replaced and its replacement is a sentinel: what is replaced is none itself then. -/
theorem exists_becomes_sentinel_iff {words : List (Word k)} {old new : Word k}
    (different : ¬ (old.compare new).isEq = true) :
    (∃ (i : Nat) (w : Word k), words[i]? = some w ∧ w.isSentinel = false ∧
        (if matchesWord old w then new else w).isSentinel = true) ↔
      words.countP (matchesWord old) ≠ 0 ∧ new.isSentinel = true := by
  rw [Nat.ne_zero_iff_zero_lt, List.countP_pos_iff]
  constructor
  · rintro ⟨i, w, here, plain, becomes⟩
    split at becomes
    case isTrue replaced => exact ⟨⟨w, List.mem_of_getElem? here, replaced⟩, becomes⟩
    case isFalse => simp [plain] at becomes
  · rintro ⟨⟨w, inside, replaced⟩, sentinel⟩
    obtain ⟨i, here⟩ := List.getElem?_of_mem inside
    refine ⟨i, w, here, ?_, by rwa [if_pos replaced]⟩
    refine Bool.eq_false_iff.mpr fun both => different ?_
    have equal : w.compare old = .eq := Ordering.isEq_iff_eq_eq.mp replaced
    have alike : w.compare new = .eq := Word.compare_eq_of_isSentinel both sentinel
    rw [← Std.TransCmp.congr_left equal, alike]
    rfl

section

variable {words : List (Word k)} {cap : Nat} {flag : Bool}

theorem flagFollows_setConverted {raises : Prop} (i : Nat) {converted : Option (Word k)}
    (rule : converted.isNone = true ↔ raises) :
    (holding words cap flag).FlagFollows (fun _ => raises)
      ((setConverted i converted).run (holding words cap flag)) := by
  rw [run_setConverted]
  split <;> simp [← rule]

theorem flagFollows_setFrom (integer : k.isInteger = true) (i : Nat) (source : AnyColumn)
    (j : Nat) :
    (holding words cap flag).FlagFollows
      (fun _ => ∃ w, source.column.wordAt j = .ok w ∧ source.column.LosesTo k w)
      ((setFrom i source j).run (holding words cap flag)) := by
  rw [run_setFrom]
  split
  case isFalse => rfl
  case isTrue =>
    split
    case h_1 => rfl
    case h_2 w here =>
      refine flagFollows_setConverted i ?_
      rw [isNone_convertWord_iff integer]
      simp [here]

variable (length : words.length ≤ cap)
include length

theorem flagFollows_switchText (source target : String) :
    (holding words cap flag).FlagFollows
      (fun d => ∃ i, (holding words cap flag).sentinelAt i = .ok false ∧ d.sentinelAt i = .ok true)
      ((switchText source target).run (holding words cap flag)) := by
  rw [run_switchText length]
  dsimp only
  split
  case isTrue =>
    rw [flagFollows_ok]
    refine (or_iff_left ?_).symm
    rintro ⟨i, plain, sentinel⟩
    rw [plain] at sentinel
    cases sentinel
  case isFalse different =>
    rw [flagFollows_ok, flag_holding, flag_holding, Bool.or_eq_true, Bool.and_eq_true, bne_iff_ne,
      ← exists_becomes_sentinel_iff different]
    simp only [sentinelAt_holding_eq_ok_iff, List.getElem?_map]
    grind

variable (fits : cap ≤ maxSize)
include fits

theorem flagFollows_addConverted {raises : Prop} {converted : Option (Word k)}
    (rule : converted.isNone = true ↔ raises) :
    (holding words cap flag).FlagFollows (fun _ => raises)
      ((addConverted env converted).run (holding words cap flag)) := by
  rw [run_addConverted length fits]
  exact flagFollows_enlarge (by simp [← rule])

theorem flagFollows_addConvertedCopies {raises : Prop} (n : Nat) {converted : Option (Word k)}
    (rule : converted.isNone = true ↔ raises) :
    (holding words cap flag).FlagFollows (fun _ => n ≠ 0 ∧ raises)
      ((addConvertedCopies env n converted).run (holding words cap flag)) := by
  rw [run_addConvertedCopies length fits]
  exact flagFollows_enlarge (by simp [← rule])

theorem flagFollows_insertText {raises : Prop} (i : Nat) (s : String)
    (rule : (Word.ofText k s).isNone = true ↔ raises) :
    (holding words cap flag).FlagFollows (fun _ => raises)
      ((insertText env i s).run (holding words cap flag)) := by
  rw [run_insertText length fits]
  split
  · rfl
  · exact flagFollows_enlarge (by simp [← rule])

theorem flagFollows_addFrom (integer : k.isInteger = true) (source : AnyColumn)
    (start count : Nat) :
    (holding words cap flag).FlagFollows
      (fun _ => ∃ w ∈ (source.column.words.drop start).take count, source.column.LosesTo k w)
      ((addFrom env source start count).run (holding words cap flag)) := by
  rw [run_addFrom length fits, range]
  split
  case h_1 => rfl
  case h_2 copied inside =>
    split at inside
    · cases inside
      refine flagFollows_enlarge ?_
      simp only [List.any_map, Bool.or_eq_true, List.any_eq_true, Function.comp_apply,
        isNone_convertWord_iff integer]
    · cases inside

theorem flagFollows_append (integer : k.isInteger = true) (source : AnyColumn) :
    (holding words cap flag).FlagFollows
      (fun _ =>
        match source.as? k with
        | some same => same.flag = true
        | none => ∃ w ∈ source.column.words, source.column.LosesTo k w)
      ((append env source).run (holding words cap flag)) := by
  have added : (holding words cap flag).FlagFollows _
      ((addFrom env source 0 source.column.size).run _) :=
    flagFollows_addFrom length fits integer source 0 source.column.size
  rw [run_append length fits]
  cases source.as? k with
  | some same => exact flagFollows_enlarge (by simp)
  | none =>
    have whole : (source.column.words.drop 0).take source.column.size = source.column.words :=
      List.take_of_length_le (List.length_take_le _ _)
    rwa [whole] at added

end

end Column

namespace Operation

variable {env : Environment} {c d : Column k}

/-- What makes an operation that succeeds raise the flag of a column of integer kind. Raw copies,
decoded elements, stored words and values, and whatever removes or rearranges never raise it. -/
def Raises (before after : Column k) : Operation k → Prop
  | raiseFlag => True
  | withFlag up => up = true
  | switchText _ _ => ∃ i, before.sentinelAt i = .ok false ∧ after.sentinelAt i = .ok true
  | addInt v | setInt _ v => k.Lacks (some v)
  | addDouble x | setDouble _ x => k.Lacks x.roundHalfUp
  | addText s | setText _ s | insertText _ s => k.Lacks (Numeral.integerOfText s.toList)
  | addUnit u => k.Lacks (some u.toNat)
  | addScalar s | setScalar _ s => k.Lacks s.toInt
  | addIntCopies n v => n ≠ 0 ∧ k.Lacks (some v)
  | addDoubleCopies n x => n ≠ 0 ∧ k.Lacks x.roundHalfUp
  | addTextCopies n s => n ≠ 0 ∧ k.Lacks (Numeral.integerOfText s.toList)
  | addScalarCopies n s => n ≠ 0 ∧ k.Lacks s.toInt
  | append source =>
    match source.as? k with
    | some same => same.flag = true
    | none => ∃ w ∈ source.column.words, source.column.LosesTo k w
  | addFrom source start count =>
    ∃ w ∈ (source.column.words.drop start).take count, source.column.LosesTo k w
  | setFrom _ source j => ∃ w, source.column.wordAt j = .ok w ∧ source.column.LosesTo k w
  | _ => False

open Column Word in
/-- Every operation leaves the flag as `Raises` says, edit by edit. -/
theorem flagFollows (op : Operation k) (integer : k.isInteger = true) (formed : c.WellFormed) :
    c.FlagFollows (fun d => op.Raises c d) ((op.run env).run c) := by
  -- A well-formed column is the one that holds its elements, which is what the edits are about.
  obtain ⟨words, cap, flag, length, fits, raised, rfl⟩ := wellFormed_iff.mp formed
  cases op with
  | setWord i w => exact .done (flagFollows_setWord i w)
  | setValue i v => exact .done (flagFollows_setWord i _)
  | addWord w => exact .done (.grown (run_addWord length fits w))
  | addWords more => exact .done (.grown (run_addWords length fits more))
  | addWordCopies n w => exact .done (.grown (run_addCopies length fits n w))
  | addValue v => exact .done (.grown (run_addWord length fits _))
  | addValueCopies n v => exact .done (.grown (run_addCopies length fits n _))
  | insertWord i w => exact .done (flagFollows_insertWord length fits i w)
  | insertValue i v => exact .done (flagFollows_insertWord length fits i _)
  | removeScalar i => exact (flagFollows_removeScalar length i).map _
  | removeValue i => exact ((flagFollows_removeWord length i).map _).map _
  | removeRange start stop => exact .done (flagFollows_removeRange length start stop)
  | clear => exact .done (.kept (run_clear length) rfl)
  | ensureCapacity minimum => exact .done (flagFollows_ensureCapacity length fits minimum)
  | trimToSize => exact .done (.kept run_trimToSize rfl)
  | moveRange first last destination =>
    exact .done (flagFollows_moveRange first last destination)
  | justKeep mask => exact .done (.kept (run_justKeep length mask) rfl)
  | reorder rank => exact .done (flagFollows_reorder length fits rank)
  | copyWithin source target => exact .done (flagFollows_copyWithin source target)
  | reverse => exact .done (.kept (run_reverse length) rfl)
  | sort => exact .done (.kept (run_sort length) rfl)
  | swapByteOrder => exact .done (.kept (run_mapWords length _) rfl)
  | flipSigns => exact .done (.kept (run_mapWords length _) rfl)
  | raiseFlag => exact .done (by simp [Column.raiseFlag, Raises])
  | withFlag up => exact .done (by simp [Raises])
  | switchText source target => exact (flagFollows_switchText length source target).map _
  | addInt v => exact .done (flagFollows_addConverted length fits isNone_ofInt_iff)
  | addDouble x => exact .done (flagFollows_addConverted length fits (isNone_ofDouble_iff integer))
  | addText s => exact .done (flagFollows_addConverted length fits (isNone_ofText_iff integer))
  | addUnit u => exact .done (flagFollows_addConverted length fits (isNone_ofUnit_iff integer))
  | addScalar s => exact .done (flagFollows_addConverted length fits (isNone_toWord_iff integer))
  | addIntCopies n v => exact .done (flagFollows_addConvertedCopies length fits n isNone_ofInt_iff)
  | addDoubleCopies n x =>
    exact .done (flagFollows_addConvertedCopies length fits n (isNone_ofDouble_iff integer))
  | addTextCopies n s =>
    exact .done (flagFollows_addConvertedCopies length fits n (isNone_ofText_iff integer))
  | addScalarCopies n s =>
    exact .done (flagFollows_addConvertedCopies length fits n (isNone_toWord_iff integer))
  | setInt i v => exact .done (flagFollows_setConverted i isNone_ofInt_iff)
  | setDouble i x => exact .done (flagFollows_setConverted i (isNone_ofDouble_iff integer))
  | setText i s => exact .done (flagFollows_setConverted i (isNone_ofText_iff integer))
  | setScalar i s => exact .done (flagFollows_setConverted i (isNone_toWord_iff integer))
  | insertText i s =>
    exact .done (flagFollows_insertText length fits i s (isNone_ofText_iff integer))
  | append source => exact .done (flagFollows_append length fits integer source)
  | appendRaw source => exact .done (flagFollows_appendRaw length fits source)
  | addFrom source start count =>
    exact .done (flagFollows_addFrom length fits integer source start count)
  | setFrom i source j => exact .done (flagFollows_setFrom integer i source j)
  | readFrom n input => exact .done (flagFollows_readFrom length fits n input)
  | internalizeDap input => exact (flagFollows_internalizeDap length fits input).map _

/-- The operation succeeds on a column and is one that raises its flag. -/
def RaisesOn (env : Environment) (op : Operation k) (c : Column k) : Prop :=
  ∃ a d, (op.run env).run c = .ok a d ∧ op.Raises c d

/-- The column that operations leave behind one after the other, also those that fail. -/
def afterAll (env : Environment) (ops : List (Operation k)) (c : Column k) : Column k :=
  ops.foldl (fun c op => op.after env c) c

theorem flag_after_iff (op : Operation k) (integer : k.isInteger = true) (formed : c.WellFormed) :
    (op.after env c).flag = true ↔ c.flag = true ∨ op.RaisesOn env c := by
  have rule : c.FlagFollows (fun d => op.Raises c d) ((op.run env).run c) :=
    op.flagFollows integer formed
  unfold after RaisesOn
  cases result : (op.run env).run c with
  | error e d =>
    rw [result] at rule
    simpa using congrArg (· = true) rule
  | ok a d =>
    rw [result] at rule
    simpa [and_assoc] using rule

theorem wellFormed_afterAll (ops : List (Operation k)) (formed : c.WellFormed) :
    (afterAll env ops c).WellFormed := by
  induction ops generalizing c with
  | nil => exact formed
  | cons first rest ih => exact ih (first.wellFormed_after formed)

/-- After a run the flag is up if it was up before or some operation of the run raised it. -/
theorem flag_afterAll_iff (integer : k.isInteger = true) (ops : List (Operation k))
    (formed : c.WellFormed) :
    (afterAll env ops c).flag = true ↔ c.flag = true ∨
      ∃ earlier op later, ops = earlier ++ op :: later ∧
        op.RaisesOn env (afterAll env earlier c) := by
  induction ops generalizing c with
  | nil => simp [afterAll]
  | cons first rest ih =>
    have next : (afterAll env (first :: rest) c) = afterAll env rest (first.after env c) := rfl
    rw [next, ih (first.wellFormed_after formed), flag_after_iff first integer formed, or_assoc]
    refine or_congr_right ?_
    -- What raises the flag is the first operation, or one of the rest as they run after the first.
    constructor
    · rintro (raised | ⟨earlier, op, later, rfl, raised⟩)
      · exact ⟨[], first, rest, rfl, raised⟩
      · exact ⟨first :: earlier, op, later, rfl, raised⟩
    · rintro ⟨earlier, op, later, split, raised⟩
      cases earlier with
      | nil =>
        obtain ⟨rfl, rfl⟩ := List.cons.inj split
        exact .inl raised
      | cons _ earlier =>
        obtain ⟨rfl, rfl⟩ := List.cons.inj split
        exact .inr ⟨earlier, op, later, rfl, raised⟩

end Operation

namespace Column

variable {env : Environment} {c : Column k}

/-- After any run on a column of integer kind, a further operation leaves the flag as it was when it
fails, and raises it when it succeeds exactly as `Operation.Raises` says. So the flag is never
lowered, and it is up at the end of a run if it was up before or some operation of the run raised
it. -/
theorem Reachable.flag_follows (h : Reachable env c) (integer : k.isInteger = true)
    (ops : List (Operation k)) :
    let b := Operation.afterAll env ops c
    (∀ (op : Operation k) a d, (op.run env).run b = .ok a d →
        (d.flag = true ↔ b.flag = true ∨ op.Raises b d)) ∧
      (∀ (op : Operation k) e d, (op.run env).run b = .error e d → d.flag = b.flag) ∧
      (b.flag = true ↔ c.flag = true ∨ ∃ earlier op later, ops = earlier ++ op :: later ∧
        op.RaisesOn env (Operation.afterAll env earlier c)) := by
  intro b
  have rule (op : Operation k) : b.FlagFollows (fun d => op.Raises b d) ((op.run env).run b) :=
    op.flagFollows integer (Operation.wellFormed_afterAll ops h.wellFormed)
  refine ⟨fun op a d done => ?_, fun op e d failed => ?_,
    Operation.flag_afterAll_iff integer ops h.wellFormed⟩
  · have succeeded := rule op
    rwa [done] at succeeded
  · have left := rule op
    rwa [failed] at left

/-- A number that no byte can be raises the flag, and removing it again does not lower it. -/
theorem flag_after_wide_number :
    let ops : List (Operation .byte) := [.addInt 5, .addInt 300, .removeRange 1 2]
    (Column.empty {} .byte).flag = false ∧
      (Operation.afterAll {} ops (Column.empty {} .byte)).flag = true := by
  intro ops
  have reached : Reachable {} (Column.empty {} .byte) := .empty .byte rfl
  obtain ⟨-, -, run⟩ := Reachable.flag_follows reached rfl ops
  refine ⟨rfl, run.mpr (.inr ⟨[.addInt 5], .addInt 300, [.removeRange 1 2], rfl, ?_⟩)⟩
  refine ⟨_, _, rfl, fun n same => ?_⟩
  cases same
  decide

end Column

end Columnar

import Columnar.Proofs.ListView
import Columnar.Proofs.WholeNumbers

/-!
# Columns that take in integers

Integers enter a column of integers or code units one by one, as copies of one, in the place of an
element, or out of a column of another such kind. The ledger of a column lists the integers that
were to stand at its places, with nothing for those that were missing already. However many
operations bring integers, and whichever of them fail, each element stands for the entry of the
ledger: it is the word of that integer if the kind has it, and the sentinel otherwise.

So an element shows its integer, but for the greatest one, which is the sentinel as well, and which
shows only while the flag is down.

## Main definitions

* `Operation.TakesIntegers`: the operations that bring integers.
* `Operation.Enters`: the ledger after a run of such operations.
* `Column.Carries`: what the elements of a column are to its ledger.

## Main statements

* `Column.Reachable.takes_integers`: what one operation does and what a run leaves.
-/

namespace Columnar

variable {k : Kind} {env : Environment}

namespace Operation

/-! ## Operations that bring integers -/

/-- Integers are given, or are the elements of a column of another kind of integers or code
units. -/
def TakesIntegers (env : Environment) : Operation k → Prop
  | addInt _ | addIntCopies _ _ | setInt _ _ => True
  | append source | addFrom source _ _ | setFrom _ source _ =>
    source.kind.IsIntegral ∧ source.kind ≠ k ∧ Column.Reachable env source.column
  | _ => False

/-- The integers that an operation brings, in order, with nothing for a missing one. -/
def entering : Operation k → List (Option Int)
  | addInt v | setInt _ v => [some v]
  | addIntCopies n v => List.replicate n (some v)
  | append source => source.column.words.map source.column.integerOf
  | addFrom source start count =>
    ((source.column.words.drop start).take count).map source.column.integerOf
  | setFrom _ source j => ((source.column.words.drop j).take 1).map source.column.integerOf
  | _ => []

/-- The list with what an operation brings, behind it or in the place of one element. -/
def place {α : Type} (op : Operation k) (old new : List α) : List α :=
  match op with
  | setInt i _ | setFrom i _ _ => old.take i ++ new ++ old.drop (i + 1)
  | _ => old ++ new

/-- The places that an operation names are there, and so is room for what it adds. -/
def Admitted (env : Environment) (c : Column k) : Operation k → Prop
  | addInt _ => c.HasRoom env 1
  | addIntCopies n _ => c.HasRoom env n
  | setInt i _ => i < c.size
  | append source => c.HasRoom env source.column.size
  | addFrom source start count => start + count ≤ source.column.size ∧ c.HasRoom env count
  | setFrom i source j => i < c.size ∧ j < source.column.size
  | _ => False

/-- A run of operations makes a ledger out of the one before. What fails brings nothing. -/
inductive Enters (env : Environment) :
    List (Operation k) → Column k → List (Option Int) → List (Option Int) → Prop where
  | nil {c : Column k} {ledger : List (Option Int)} : Enters env [] c ledger ledger
  | done {op : Operation k} {rest : List (Operation k)} {c d : Column k}
    {ledger last : List (Option Int)} (succeeded : (op.run env).run c = .ok .done d)
    (others : Enters env rest d (op.place ledger op.entering) last) :
    Enters env (op :: rest) c ledger last
  | failed {op : Operation k} {rest : List (Operation k)} {c : Column k} {e : ColumnError}
    {ledger last : List (Option Int)} (error : (op.run env).run c = .error e c)
    (others : Enters env rest c ledger last) : Enters env (op :: rest) c ledger last

end Operation

namespace Column

variable {c d : Column k} {l : Kind} {s : Column l} {vs ledger : List (Option Int)}

/-- Whole numbers cross between two kinds of them as integers. -/
theorem route_of_integral (source : l.IsIntegral) (target : k.IsIntegral) (different : l ≠ k) :
    l.route k = .integer := by
  have plain {k : Kind} (integral : k.IsIntegral) : k ≠ .string ∧ k.isFloating = false := by
    rcases integral with integer | rfl
    · cases k, integer using Kind.integerCases <;> exact ⟨by simp, rfl⟩
    · exact ⟨by simp, rfl⟩
  rw [Kind.route, if_neg different, if_neg (not_or.mpr ⟨(plain source).1, (plain target).1⟩),
    (plain source).2, (plain target).2]
  rfl

theorem convertWord_of_integral (source : l.IsIntegral) (target : k.IsIntegral) (different : l ≠ k)
    (w : Word l) : s.convertWord k w = (s.integerOf w).bind (Word.ofInt k) := by
  have route := route_of_integral source target different
  unfold convertWord integerOf
  split
  · rw [Word.crossMissing, route]
    rfl
  · rw [Word.cross_of_ne different, route]

theorem TakesIn.run_done {e : Edit k Unit} {admitted : Prop}
    {place : List (Word k) → List (Word k)} (intake : TakesIn e c admitted place vs) :
    (admitted → ∃ d, (Operation.done e).run c = .ok .done d ∧ c.Stores d place vs) ∧
      (¬ admitted → ∃ err, (Operation.done e).run c = .error err c) := by
  simp only [Operation.run_done]
  constructor
  · intro holds
    obtain ⟨d, done, stores⟩ := intake.stores holds
    rw [done]
    exact ⟨d, rfl, stores⟩
  · intro refused
    obtain ⟨err, failed⟩ := intake.refused refused
    rw [failed]
    exact ⟨err, rfl⟩

end Column

namespace Operation

variable {c : Column k} {op : Operation k}

/-- An operation stores what it brings if it is admitted, and otherwise does nothing. -/
theorem run_of_takesIntegers (formed : c.WellFormed) (integral : k.IsIntegral)
    (takes : op.TakesIntegers env) :
    (op.Admitted env c → ∃ d, (op.run env).run c = .ok .done d ∧
        c.Stores d (op.place c.words) op.entering) ∧
      (¬ op.Admitted env c → ∃ e, (op.run env).run c = .error e c) := by
  cases op with
  | addInt v => exact (Column.addConverted_takesIn formed integral (some v)).run_done
  | addIntCopies n v =>
    exact (Column.addConvertedCopies_takesIn formed integral n (some v)).run_done
  | setInt i v => exact (Column.setConverted_takesIn formed integral i (some v)).run_done
  | append source =>
    obtain ⟨whole, different, reached⟩ := takes
    exact (Column.append_takesIn formed integral reached.wellFormed
      (Column.convertWord_of_integral whole integral different) different).run_done
  | addFrom source start count =>
    obtain ⟨whole, different, reached⟩ := takes
    exact (Column.addFrom_takesIn formed integral reached.wellFormed
      (Column.convertWord_of_integral whole integral different) start count).run_done
  | setFrom i source j =>
    obtain ⟨whole, different, reached⟩ := takes
    exact (Column.setFrom_takesIn formed integral reached.wellFormed
      (Column.convertWord_of_integral whole integral different) i j).run_done
  | _ => cases takes

/-! ## Ledgers -/

theorem forall₂_place {α β : Type} {r : α → β → Prop} {old new : List α} {was now : List β}
    (olds : List.Forall₂ r old was) (news : List.Forall₂ r new now) :
    List.Forall₂ r (op.place old new) (op.place was now) := by
  unfold place
  split
  · exact List.rel_append (List.rel_append (List.forall₂_take _ olds) news)
      (List.forall₂_drop _ olds)
  · exact List.rel_append (List.rel_append (List.forall₂_take _ olds) news)
      (List.forall₂_drop _ olds)
  · exact List.rel_append olds news

theorem mem_of_mem_place {α : Type} {a : α} {old new : List α} (held : a ∈ op.place old new) :
    a ∈ old ∨ a ∈ new := by
  have splice {i : Nat} (held : a ∈ old.take i ++ new ++ old.drop (i + 1)) : a ∈ old ∨ a ∈ new := by
    rcases List.mem_append.mp held with front | back
    · exact (List.mem_append.mp front).imp_left List.mem_of_mem_take
    · exact .inl (List.mem_of_mem_drop back)
  unfold place at held
  split at held
  · exact splice held
  · exact splice held
  · exact List.mem_append.mp held

end Operation

namespace Column

variable {c d : Column k} {w : Word k} {v : Option Int} {ledger : List (Option Int)}

/-- Each word represents the entry of the ledger, and the flag is up if the kind lacks one of
them. -/
structure Backs (c : Column k) (ledger : List (Option Int)) : Prop where
  words : List.Forall₂ Word.Represents c.words ledger
  raised : ∀ v ∈ ledger, k.Lacks v → c.flag = true

/-- What the elements of a column show of its ledger: an integer in range as such, unless it is the
greatest one and the flag is up, and the sentinel for the others. -/
structure Carries (c : Column k) (ledger : List (Option Int)) : Prop where
  size : c.size = ledger.length
  held : ∀ (i : Nat) n, ledger[i]? = some (some n) → k.InRange n →
    c.rawIntegerAt i = .ok (some n)
  lacking : ∀ (i : Nat) v, ledger[i]? = some v → k.Lacks v → c.wordAt i = .ok (Word.sentinel k)
  shown : ∀ (i : Nat) v n, ledger[i]? = some v →
    (c.integerAt i = .ok (some n) ↔
      v = some n ∧ k.InRange n ∧ ¬ (n = k.last ∧ c.flag = true))

/-- The ledger of a column without a history has the integers of its words. -/
theorem backs_toInt (integral : k.IsIntegral) : c.Backs (c.words.map Word.toInt) := by
  have inside (w : Word k) : ¬ k.Lacks w.toInt := by
    obtain ⟨n, value, inside⟩ := integral.exists_toInt w
    exact fun lacks => lacks n value inside
  constructor
  · rw [List.forall₂_map_right_iff, List.forall₂_same]
    exact fun w _ => ⟨fun n value _ => value, fun lacks => absurd lacks (inside w)⟩
  · rintro v held lacks
    obtain ⟨w, -, rfl⟩ := List.mem_map.mp held
    exact absurd lacks (inside w)

theorem Backs.after_stores {op : Operation k} (backs : c.Backs ledger)
    (stores : c.Stores d (op.place c.words) op.entering) :
    d.Backs (op.place ledger op.entering) := by
  obtain ⟨ws, represented, words⟩ := stores.words
  constructor
  · rw [words]
    exact Operation.forall₂_place backs.words represented
  · intro v held lacks
    rw [stores.flag]
    rcases Operation.mem_of_mem_place held with old | new
    · exact .inl (backs.raised v old lacks)
    · exact .inr ⟨v, new, lacks⟩

/-- A word shows its integer unless that is the greatest one and the flag is up. -/
theorem integerOf_eq_some_iff (integral : k.IsIntegral) {m n : Int} (value : w.toInt = some m) :
    c.integerOf w = some n ↔ m = n ∧ ¬ (n = k.last ∧ c.flag = true) := by
  have sentinel : w.isSentinel = true ↔ m = k.last := by
    rw [integral.isSentinel_iff]
    constructor
    · rintro rfl
      exact Option.some.inj (value.symm.trans integral.toInt_sentinel)
    · rintro rfl
      exact integral.toInt_injective (value.trans integral.toInt_sentinel.symm)
  have missing : c.readsMissing w = true ↔ c.flag = true ∧ m = k.last := by
    rw [readsMissing, Bool.and_eq_true, sentinel]
  unfold integerOf
  split
  case isTrue reads =>
    obtain ⟨up, last⟩ := missing.mp reads
    constructor
    · rintro ⟨⟩
    · rintro ⟨rfl, present⟩
      exact absurd ⟨last, up⟩ present
  case isFalse reads =>
    rw [value, Option.some.injEq]
    constructor
    · rintro rfl
      exact ⟨rfl, fun both => reads (missing.mpr both.symm)⟩
    · rintro ⟨same, -⟩
      exact same

theorem Backs.carries (backs : c.Backs ledger) (formed : c.WellFormed) (integral : k.IsIntegral) :
    c.Carries ledger := by
  have length := backs.words.length_eq
  have element {i : Nat} {v : Option Int} (entry : ledger[i]? = some v) :
      ∃ w, c.wordAt i = .ok w ∧ w.Represents v := by
    obtain ⟨bound, value⟩ := List.getElem?_eq_some_iff.mp entry
    have inside : i < c.words.length := by omega
    refine ⟨c.words[i], (wordAt_eq_ok_iff formed).mpr (List.getElem?_eq_getElem inside), ?_⟩
    rw [← value]
    exact backs.words.get inside bound
  constructor
  · rw [← formed.length_words, length]
  · intro i n entry inside
    obtain ⟨w, here, represents⟩ := element entry
    rw [rawIntegerAt, here]
    exact congrArg Except.ok (represents.held n rfl inside)
  · intro i v entry lacks
    obtain ⟨w, here, represents⟩ := element entry
    rw [here, represents.lacking lacks]
  · intro i v n entry
    obtain ⟨w, here, represents⟩ := element entry
    have read : c.integerAt i = .ok (c.integerOf w) := by
      rw [integerAt, here]
      rfl
    rw [read, Except.ok.injEq]
    by_cases lacks : k.Lacks v
    · have up := backs.raised v (List.mem_of_getElem? entry) lacks
      have missing : c.readsMissing w = true := by
        rw [readsMissing, up, Bool.true_and, represents.lacking lacks]
        exact Word.isSentinel_sentinel
      rw [integerOf, if_pos missing]
      refine iff_of_false (by simp) ?_
      rintro ⟨rfl, inside, -⟩
      exact lacks n rfl inside
    · obtain ⟨m, rfl, inside⟩ : ∃ m, v = some m ∧ k.InRange m := by
        simpa [Kind.Lacks] using lacks
      rw [integerOf_eq_some_iff integral (represents.held m rfl inside), Option.some.injEq]
      constructor
      · rintro ⟨rfl, present⟩
        exact ⟨rfl, inside, present⟩
      · rintro ⟨rfl, -, present⟩
        exact ⟨rfl, present⟩

end Column

namespace Operation

/-! ## Runs -/

/-- A run of operations leaves a column whose elements stand for the ledger of the run. -/
theorem exists_ledger {ops : List (Operation k)} {c : Column k} {ledger : List (Option Int)}
    (formed : c.WellFormed) (integral : k.IsIntegral) (takes : ∀ op ∈ ops, op.TakesIntegers env)
    (backs : c.Backs ledger) :
    ∃ last, Enters env ops c ledger last ∧ (afterAll env ops c).Backs last := by
  induction ops generalizing c ledger with
  | nil => exact ⟨ledger, .nil, backs⟩
  | cons op rest ih =>
    obtain ⟨first, others⟩ := List.forall_mem_cons.mp takes
    obtain ⟨stores, refused⟩ := run_of_takesIntegers formed integral first
    have after : (op.after env c).WellFormed := op.wellFormed_after formed
    have next : afterAll env (op :: rest) c = afterAll env rest (op.after env c) := rfl
    by_cases admitted : op.Admitted env c
    · obtain ⟨d, done, stored⟩ := stores admitted
      have left : op.after env c = d := by rw [Operation.after, done]
      rw [left] at after next
      obtain ⟨last, entered, carried⟩ := ih after others (backs.after_stores stored)
      exact ⟨last, .done done entered, next ▸ carried⟩
    · obtain ⟨e, failed⟩ := refused admitted
      have left : op.after env c = c := by rw [Operation.after, failed]
      rw [left] at next
      obtain ⟨last, entered, carried⟩ := ih formed others backs
      exact ⟨last, .failed failed entered, next ▸ carried⟩

end Operation

namespace Column

/-- Integers enter a reachable column of integers or code units by any operations that bring them.

Each of these stores the words of what it brings, in order and where it puts them, leaves all other
words as they are, and raises the flag if the kind lacks one of the integers; or it is not admitted
and changes nothing. After a run of them, an integer in range stands at its place as such, and the
sentinel at the places of the others. An element shows an integer exactly if it was one in range,
and not the greatest one while the flag is up. -/
theorem Reachable.takes_integers {c : Column k} (h : Reachable env c) (integral : k.IsIntegral) :
    (∀ op : Operation k, op.TakesIntegers env →
      (op.Admitted env c → ∃ d, (op.run env).run c = .ok .done d ∧
        c.Stores d (op.place c.words) op.entering) ∧
      (¬ op.Admitted env c → ∃ e, (op.run env).run c = .error e c)) ∧
    ∀ ops : List (Operation k), (∀ op ∈ ops, op.TakesIntegers env) →
      ∃ ledger, Operation.Enters env ops c (c.words.map Word.toInt) ledger ∧
        (Operation.afterAll env ops c).Carries ledger := by
  have formed := h.wellFormed
  refine ⟨fun op takes => Operation.run_of_takesIntegers formed integral takes, ?_⟩
  intro ops takes
  obtain ⟨ledger, entered, backs⟩ :=
    Operation.exists_ledger formed integral takes (backs_toInt integral)
  exact ⟨ledger, entered, backs.carries (Operation.wellFormed_afterAll ops formed) integral⟩

/-- The greatest byte is stored as such, but does not show behind an integer that is too large. -/
theorem ubytes_of_longs :
    let longs : Column .long := ofSlots #[255#64, 256#64] 2
    let ubytes : Column .ubyte := empty {} .ubyte
    ∃ d, ((Operation.append ⟨longs⟩).run {}).run ubytes = .ok .done d ∧
      ubytes.Stores d (ubytes.words ++ ·) [some 255, some 256] ∧
      d.rawIntegerAt 0 = .ok (some 255) ∧ d.integerAt 0 ≠ .ok (some 255) ∧
      d.wordAt 1 = .ok (Word.sentinel .ubyte) := by
  intro longs ubytes
  have source : Reachable {} (AnyColumn.column ⟨longs⟩) := .ofWords [255#64, 256#64] rfl
  have target : Reachable {} ubytes := .empty .ubyte rfl
  have takes : (Operation.append ⟨longs⟩ : Operation .ubyte).TakesIntegers {} :=
    ⟨.inl rfl, by decide, source⟩
  have lacks : Kind.ubyte.Lacks (some 256) := by
    rintro n ⟨⟩
    decide
  obtain ⟨one, many⟩ := target.takes_integers (.inl rfl)
  obtain ⟨d, done, stores⟩ := (one _ takes).1 ⟨by decide, by decide⟩
  obtain ⟨ledger, entered, carries⟩ := many [.append ⟨longs⟩] (by simpa using takes)
  have left : Operation.afterAll {} [.append ⟨longs⟩] ubytes = d := by
    rw [Operation.afterAll, List.foldl_cons, List.foldl_nil, Operation.after, done]
  have entries : ledger = [some 255, some 256] := by
    cases entered with
    | done succeeded others =>
      cases others
      rfl
    | failed error others => cases done.symm.trans error
  rw [left, entries] at carries
  have up : d.flag = true := stores.flag.mpr (.inr ⟨some 256, by decide, lacks⟩)
  refine ⟨d, done, stores, carries.held 0 255 rfl (by decide), fun shows => ?_,
    carries.lacking 1 (some 256) rfl lacks⟩
  exact ((carries.shown 0 _ 255 rfl).mp shows).2.2 ⟨rfl, up⟩

end Column

end Columnar

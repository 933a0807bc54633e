import Columnar.Proofs.Exactness
import Columnar.Proofs.Missing
import Columnar.Proofs.Promotion

/-!
# Copies through a scalar

An element can be copied straight from its column, through the currency that its kind and that of
the target call for, or be taken out as a scalar first, which is then stored through the currency of
its payload. The two leave the same column behind, but for floating numbers among texts and 64-bit
integers among singles.

A floating number enters a text column straight with the shortest digits of its own format, and an
infinity as the empty text. As a scalar it is a double, enters with the digits of that one, and an
infinity enters as a word. A 64-bit integer is rounded to a double before it is rounded to a single
if it is copied straight, but only once as a scalar.
-/

namespace Columnar

variable {k source : Kind} {env : Environment}

/-- Rounding an integer to a double first does not change the single to which it is rounded. -/
def Binary.RoundsOnce (v : Int) : Prop :=
  (Binary.ofInt v : Binary .double).convert = (Binary.ofInt v : Binary .single)

namespace Word

/-- A word that is not missing becomes the same word of another kind, whether it is copied straight
or through a scalar. -/
def CrossesAlike : {source : Kind} → Word source → Kind → Prop
  | .floating _, x, .string =>
    Binary.isFinite x = true ∧ Binary.text x = Binary.text (Binary.toDouble x)
  | .signed .w64, x, .floating .single => Binary.RoundsOnce (BitVec.toInt x)
  | .unsigned .w64, x, .floating .single => Binary.RoundsOnce (BitVec.toNat x)
  | _, _, _ => True

/-- The word of kind `k` for a word that is not missing, by way of a scalar. -/
def throughScalar (k : Kind) (w : Word source) : Option (Word k) := (Scalar.ofWord w false).toWord k

/-- A scalar goes back to the kind that it is from as the word that it was. -/
theorem throughScalar_self (w : Word k) (plain : k.missingFixed = true → w.isSentinel = false) :
    w.throughScalar k = some w := by
  cases k with
  | signed b => exact ofInt_toInt rfl w
  | unsigned b => exact ofInt_toInt rfl w
  | floating p => exact Binary.ofDouble_toDouble (plain rfl)
  | char => rfl
  | string => rfl

theorem cross_of_ne (different : source ≠ k) (w : Word source) (text : String) :
    w.cross k text =
      match source.route k with
      | .text => ofText k text
      | .floating => ofDouble k w.toDouble
      | _ => w.toInt.bind (ofInt k) := dif_neg different

/-! ## Integers among floating numbers -/

/-- Where the single is not affected by a double in between, an integer that is copied straight is
rounded as it is by way of a scalar. -/
theorem ofDouble_ofInt {p : Precision} {v : Int}
    (once : p = .single → v.natAbs < 2 ^ 64 ∧ Binary.RoundsOnce v) :
    Binary.ofDouble p (Binary.ofInt v) = some (Binary.ofInt v) := by
  cases p with
  | single =>
    obtain ⟨bound, once⟩ := once rfl
    rw [Binary.ofDouble_ofInt bound, once]
  | double => exact Binary.ofDouble_toDouble (Binary.isNaN_ofInt .double v)

/-- Integers have up to 64 bits, and only those of the widest kinds can have more than a double. -/
theorem natAbs_lt {b : IntWidth} {v : Int} (lower : b.minSigned ≤ v) (upper : v ≤ b.maxUnsigned) :
    v.natAbs < 2 ^ 64 ∧ (b ≠ .w64 → v.natAbs < 2 ^ 53) := by
  unfold IntWidth.minSigned at lower
  unfold IntWidth.maxUnsigned at upper
  cases b with
  | w64 =>
    simp only [IntWidth.bits] at lower upper
    exact ⟨by omega, nofun⟩
  | w8 | w16 | w32 =>
    simp only [IntWidth.bits] at lower upper
    exact ⟨by omega, fun _ => by omega⟩

theorem crossesAlike_float_iff (integer : source.isInteger = true) {w : Word source} {v : Int}
    (value : w.toInt = some v) :
    v.natAbs < 2 ^ 64 ∧ (w.CrossesAlike .float ↔ Binary.RoundsOnce v) := by
  cases source, integer using Kind.integerCases with
  | signed b =>
    cases value
    obtain ⟨lower, upper⟩ := b.toInt_bounds w
    have wider : b.maxSigned ≤ b.maxUnsigned := by cases b <;> decide
    obtain ⟨bound, few⟩ := natAbs_lt lower (Int.le_trans upper wider)
    refine ⟨bound, ?_⟩
    cases b with
    | w64 => exact .rfl
    | w8 | w16 | w32 => exact iff_of_true trivial (Binary.convert_ofInt (few (by decide)))
  | unsigned b =>
    cases value
    obtain ⟨lower, upper⟩ := b.toNat_bounds w
    have wider : b.minSigned ≤ 0 := by cases b <;> decide
    obtain ⟨bound, few⟩ := natAbs_lt (Int.le_trans wider lower) upper
    refine ⟨bound, ?_⟩
    cases b with
    | w64 => exact .rfl
    | w8 | w16 | w32 => exact iff_of_true trivial (Binary.convert_ofInt (few (by decide)))

theorem exists_ne_of_not_roundsOnce {v : Int} (bound : v.natAbs < 2 ^ 64)
    (twice : ¬ Binary.RoundsOnce v) :
    ∃ a b, ofInt .float v = some a ∧ Binary.ofDouble .single (Binary.ofInt v) = some b ∧ a ≠ b :=
  ⟨_, _, rfl, Binary.ofDouble_ofInt bound, fun same => twice same.symm⟩

/-! ## All pairs of kinds -/

/-- A floating number has the text of a double, once it is a scalar. -/
theorem throughScalar_string {p : Precision} {x : Word (.floating p)}
    (number : Binary.isNaN x = false) :
    x.throughScalar .string = some (Binary.text (Binary.toDouble x)) := by
  have wide := Binary.isNaN_toDouble number
  exact if_neg (by simp [wide])

/-- Copied straight, an infinity is the empty text, which it is not as a scalar. -/
theorem text_toDouble_ne {p : Precision} {x : Word (.floating p)} (number : Binary.isNaN x = false)
    (apart : ¬ x.CrossesAlike .string) : Binary.text (Binary.toDouble x) ≠ x.valueText := by
  have shown : x.valueText = if Binary.isFinite x then Binary.text x else "" := rfl
  rw [shown]
  split
  case isTrue finite => exact fun same => apart ⟨finite, same.symm⟩
  case isFalse beyond =>
    have infinite : Binary.isInfinite x = true := by
      have upper : ¬ p.infinity < Binary.magnitude x := of_decide_eq_false number
      have lower : ¬ Binary.magnitude x < p.infinity := fun below => beyond (decide_eq_true below)
      exact beq_iff_eq.mpr (by omega)
    rw [Binary.text, Binary.isNaN_toDouble number, Binary.isInfinite_toDouble infinite]
    cases Binary.isNegative (Binary.toDouble x) <;> simp

theorem throughScalar_of_crossesAlike {w : Word source}
    (plain : source.missingFixed = true → w.isSentinel = false) (alike : w.CrossesAlike k) :
    w.throughScalar k = w.cross k w.valueText := by
  by_cases same : source = k
  · subst same
    rw [throughScalar_self w plain, cross, dif_pos rfl]
  rw [cross_of_ne same, Kind.route, if_neg same]
  cases source with
  | signed b =>
    cases k with
    | floating p =>
      refine (ofDouble_ofInt fun single => ?_).symm
      subst single
      exact (crossesAlike_float_iff rfl rfl).imp_right fun once => once.mp alike
    | signed | unsigned | char | string => rfl
  | unsigned b =>
    cases k with
    | floating p =>
      refine (ofDouble_ofInt fun single => ?_).symm
      subst single
      exact (crossesAlike_float_iff rfl rfl).imp_right fun once => once.mp alike
    | signed | unsigned | char | string => rfl
  | floating p =>
    cases k with
    | string =>
      obtain ⟨finite, text⟩ := alike
      have shown : valueText w = Binary.text w := if_pos finite
      rw [throughScalar_string (plain rfl), ← text, ← shown]
      rfl
    | signed | unsigned | floating | char => rfl
  | char =>
    cases k with
    | floating p =>
      have few : (BitVec.toNat w : Int).natAbs < 2 ^ 53 := by
        have bound := BitVec.isLt w
        omega
      exact (ofDouble_ofInt fun _ => ⟨by omega, Binary.convert_ofInt few⟩).symm
    | char => exact absurd rfl same
    | signed | unsigned | string => rfl
  | string =>
    cases k with
    | string => exact absurd rfl same
    | signed | unsigned | floating | char => rfl

/-- Where the two ways differ, both have a word, and not the same one. -/
theorem exists_ne_of_not_crossesAlike {w : Word source}
    (plain : source.missingFixed = true → w.isSentinel = false) (apart : ¬ w.CrossesAlike k) :
    ∃ a b, w.throughScalar k = some a ∧ w.cross k w.valueText = some b ∧ a ≠ b := by
  cases source with
  | signed b =>
    cases b with
    | w8 | w16 | w32 => exact absurd trivial apart
    | w64 =>
      cases k with
      | floating p =>
        cases p with
        | single =>
          rw [cross_of_ne (by decide)]
          exact exists_ne_of_not_roundsOnce (crossesAlike_float_iff (w := w) rfl rfl).1 apart
        | double => exact absurd trivial apart
      | signed | unsigned | char | string => exact absurd trivial apart
  | unsigned b =>
    cases b with
    | w8 | w16 | w32 => exact absurd trivial apart
    | w64 =>
      cases k with
      | floating p =>
        cases p with
        | single =>
          rw [cross_of_ne (by decide)]
          exact exists_ne_of_not_roundsOnce (crossesAlike_float_iff (w := w) rfl rfl).1 apart
        | double => exact absurd trivial apart
      | signed | unsigned | char | string => exact absurd trivial apart
  | floating p =>
    cases k with
    | string =>
      exact ⟨_, _, throughScalar_string (plain rfl), rfl, text_toDouble_ne (plain rfl) apart⟩
    | signed | unsigned | floating | char => exact absurd trivial apart
  | char => exact absurd trivial apart
  | string => exact absurd trivial apart

end Word

namespace Column

variable {s : AnyColumn} {t : Column k} {i j : Nat} {w : Word s.kind}

/-- Storing one conversion result or the other leaves the same column, given its flag. -/
def StoredAlike (flag : Bool) (a b : Option (Word k)) : Prop :=
  stored a = stored b ∧ (flag || a.isNone) = (flag || b.isNone)

/-- A missing element is stored alike both ways, and any other one where its word is the same. -/
theorem storedAlike_iff (hs : s.column.WellFormed) (ht : t.WellFormed) :
    StoredAlike t.flag ((Scalar.ofWord w (s.column.readsMissing w)).toWord k)
        (s.column.convertWord k w) ↔
      s.column.readsMissing w = true ∨ w.CrossesAlike k := by
  cases reads : s.column.readsMissing w with
  | true =>
    simp only [true_or, iff_true]
    have scalar : (Scalar.ofWord w true).toWord k = none := rfl
    rw [scalar]
    obtain none | ⟨sentinel, fixed⟩ := convertWord_eq_of_missing k reads
    · rw [none]
      exact ⟨rfl, rfl⟩
    · rw [sentinel, ht.raised fixed]
      exact ⟨rfl, rfl⟩
  | false =>
    have plain := isSentinel_eq_false_of_readsMissing hs reads
    have straight : s.column.convertWord k w = w.cross k w.valueText := by
      rw [convertWord, reads]
      rfl
    have scalar : (Scalar.ofWord w false).toWord k = w.throughScalar k := rfl
    rw [straight, scalar, or_iff_right Bool.false_ne_true]
    constructor
    · intro alike
      refine Classical.byContradiction fun apart => ?_
      obtain ⟨a, b, through, crossed, different⟩ := Word.exists_ne_of_not_crossesAlike plain apart
      rw [through, crossed] at alike
      exact different alike.1
    · intro alike
      rw [Word.throughScalar_of_crossesAlike plain alike]
      exact ⟨rfl, rfl⟩

section

variable (ht : t.WellFormed)
include ht

theorem run_addConverted_eq_iff (a b : Option (Word k)) :
    (addConverted env a).run t = (addConverted env b).run t ↔
      (t.HasRoom env 1 → StoredAlike t.flag a b) := by
  rw [← refusal_eq_none_iff]
  obtain ⟨words, cap, flag, length, fits, raised, rfl⟩ := wellFormed_iff.mp ht
  rw [run_addConverted length fits, run_addConverted length fits,
    enlarge_eq_enlarge_iff (by simp), capacity_holding length]
  simp [StoredAlike]

theorem run_setConverted_eq_iff (a b : Option (Word k)) :
    (setConverted i a).run t = (setConverted i b).run t ↔
      (i < t.size → StoredAlike t.flag a b) := by
  obtain ⟨words, cap, flag, length, fits, raised, rfl⟩ := wellFormed_iff.mp ht
  rw [run_setConverted, run_setConverted]
  split
  case isFalse outside => simp [outside]
  case isTrue inside =>
    have entry (u v : Word k) (same : words.set i u = words.set i v) : u = v := by
      have there := congrArg (·[i]?) same
      simpa [inside] using there
    have sets : words.set i (stored a) = words.set i (stored b) ↔ stored a = stored b :=
      ⟨entry _ _, congrArg _⟩
    simp [StoredAlike, holding_inj, sets, inside]

end

/-- One element of another column is added as its conversion result. -/
theorem run_addFrom_one (hs : s.column.WellFormed) (ht : t.WellFormed)
    (here : s.column.wordAt i = .ok w) :
    (addFrom env s i 1).run t = (addConverted env (s.column.convertWord k w)).run t := by
  obtain ⟨words, cap, flag, length, fits, raised, rfl⟩ := wellFormed_iff.mp ht
  have element := (wordAt_eq_ok_iff hs).mp here
  obtain ⟨inside, value⟩ := List.getElem?_eq_some_iff.mp element
  have copied : s.column.range i 1 = .ok [w] := by
    rw [hs.length_words] at inside
    rw [range, if_pos (by omega), List.drop_eq_getElem_cons (by rwa [hs.length_words]), value]
    rfl
  rw [run_addFrom length fits, copied, run_addConverted length fits]
  simp

theorem run_setFrom_one (ht : t.WellFormed) (here : s.column.wordAt i = .ok w) :
    (setFrom j s i).run t = (setConverted j (s.column.convertWord k w)).run t := by
  obtain ⟨words, cap, flag, length, fits, raised, rfl⟩ := wellFormed_iff.mp ht
  rw [run_setFrom, here]
  split
  case isTrue => rfl
  case isFalse outside => rw [run_setConverted, if_neg outside]

/-- Where an element is copied to a reachable column, straight or by way of a scalar, the outcome is
the same exactly if there is no room for it, if it is missing, or if its word is the same both ways;
and so it is where it is stored over another one. -/
theorem Reachable.copies_alike_iff (hs : Reachable env s.column) (ht : Reachable env t)
    (here : s.column.wordAt i = .ok w) :
    ∃ scalar, s.column.scalarAt i = .ok scalar ∧
      ((addScalar env scalar).run t = (addFrom env s i 1).run t ↔
        (t.HasRoom env 1 → s.column.readsMissing w = true ∨ w.CrossesAlike k)) ∧
      ∀ j, (setScalar j scalar).run t = (setFrom j s i).run t ↔
        (j < t.size → s.column.readsMissing w = true ∨ w.CrossesAlike k) := by
  have formed := hs.wellFormed
  have target := ht.wellFormed
  have scalar : s.column.scalarAt i = .ok (Scalar.ofWord w (s.column.readsMissing w)) := by
    rw [scalarAt, here]
    rfl
  refine ⟨_, scalar, ?_, fun j => ?_⟩
  · rw [run_addFrom_one formed target here, addScalar, run_addConverted_eq_iff target,
      storedAlike_iff formed target]
  · rw [run_setFrom_one target here, setScalar, run_setConverted_eq_iff target,
      storedAlike_iff formed target]

/-- A long that is rounded twice on its way to a float column. -/
theorem long_rounded_twice :
    let longs : Column .long := ofSlots #[1152921573326323713#64] 1
    ∃ scalar, longs.scalarAt 0 = .ok scalar ∧
      (addScalar {} scalar).run (Column.empty {} .float) ≠
        (addFrom {} ⟨longs⟩ 0 1).run (Column.empty {} .float) := by
  intro longs
  have source : Reachable {} (AnyColumn.column ⟨longs⟩) := .ofWords [1152921573326323713#64] rfl
  have target : Reachable {} (Column.empty {} .float) := .empty .float rfl
  have twice : ¬ Binary.RoundsOnce 1152921573326323713 := by
    unfold Binary.RoundsOnce
    decide +kernel
  obtain ⟨scalar, taken, added, -⟩ := source.copies_alike_iff target (i := 0) rfl
  refine ⟨scalar, taken, fun same => ?_⟩
  have room : (Column.empty {} .float).HasRoom {} 1 := .of_size_le (by decide)
  obtain missing | once := added.mp same room
  · cases missing
  · exact twice once

/-- A tenth in single precision, added to texts straight and by way of a scalar. -/
theorem texts_of_single_tenth :
    let tenth : Word .float := 0x3DCCCCCD#32
    let floats : Column .float := ofSlots #[tenth] 1
    let texts : Column .string := Column.empty {} .string
    ∃ scalar, floats.scalarAt 0 = .ok scalar ∧
      (addFrom {} ⟨floats⟩ 0 1).run texts = .ok () (holding ["0.1"] 8 true) ∧
      (addScalar {} scalar).run texts = .ok () (holding ["0.10000000149011612"] 8 true) := by
  intro tenth floats texts
  have reached : Reachable {} (AnyColumn.column ⟨floats⟩) := .ofWords [tenth] rfl
  have added (converted : Option (Word .string)) :
      (addConverted {} converted).run texts = .ok () (holding [stored converted] 8 true) := by
    have empty : texts = holding [] 8 true := rfl
    have small : 8 ≤ maxSize := by decide
    rw [empty, run_addConverted (by simp) small, List.nil_append, enlarge_of_le (by simp) small]
    rfl
  have straight : floats.convertWord .string tenth = some "0.1" := by decide +kernel
  have scalar : (Scalar.ofWord tenth false).toWord .string = some "0.10000000149011612" := by
    decide +kernel
  have copied : (addFrom {} ⟨floats⟩ 0 1).run texts =
      (addConverted {} (floats.convertWord .string tenth)).run texts :=
    run_addFrom_one reached.wellFormed (wellFormed_empty rfl) rfl
  refine ⟨Scalar.ofWord tenth false, rfl, ?_, ?_⟩
  · rw [copied, straight]
    exact added _
  · rw [addScalar, scalar]
    exact added _

end Column

end Columnar

import Columnar.Column.Order
import Columnar.Column.Render
import Columnar.Proofs.Missing
import Columnar.Proofs.Ranking

/-!
# Equality of columns

A column shows an element as a word together with whether that word is missing in it. Two columns
are equal when they show elements that compare equal at the same places; as this comparison is a
total preorder, equality is an equivalence. Elements that compare equal are missing in both columns
or the same word, so nothing that is read from them tells them apart.
-/

namespace Columnar

open Std

variable {k : Kind}

instance : TransCmp fun x y : Bool × Word k => x.2.compare y.2 where
  eq_swap := OrientedCmp.eq_swap
  isLE_trans := TransCmp.isLE_trans

/-- The order of words of which some are missing. -/
def compareSeen : Bool × Word k → Bool × Word k → Ordering :=
  lastly Prod.fst fun x y => x.2.compare y.2

instance : TransCmp (compareSeen (k := k)) :=
  inferInstanceAs (TransCmp (lastly Prod.fst fun x y : Bool × Word k => x.2.compare y.2))

theorem compareSeen_self (x : Bool × Word k) : compareSeen x x = .eq := ReflCmp.compare_self

namespace Word

/-- Words that compare equal contribute alike to a hash code. -/
theorem hashTerm_eq_of_compare {x y : Word k} (h : x.compare y = .eq) :
    x.hashTerm = y.hashTerm := by
  have same : x.key = y.key := compare_eq_iff.mp h
  cases k with
  | floating p => exact congrArg (binaryTerm p) same
  | signed w => exact congrArg (signedTerm w) same
  | unsigned w => exact congrArg (unsignedTerm w) same
  | char => exact congrArg (BitVec.setWidth 32) same
  | string => exact congrArg textTerm same

theorem isSentinel_eq_of_compare {x y : Word k} (h : x.compare y = .eq) :
    x.isSentinel = y.isSentinel := by
  have back : y.compare x = .eq := OrientedCmp.eq_symm h
  refine Bool.eq_iff_iff.mpr
    ⟨fun hx => isSentinel_of_isLE ?_ hx, fun hy => isSentinel_of_isLE ?_ hy⟩
  · rw [h]
    rfl
  · rw [back]
    rfl

/-- Words that compare equal are the same word, as far as sentinels are left out where they are
always missing. -/
theorem eq_of_compare {x y : Word k} (h : x.compare y = .eq)
    (plain : k.missingFixed = true → x.isSentinel = false) : x = y := by
  have same : x.key = y.key := compare_eq_iff.mp h
  cases k with
  | floating p =>
    have first : Binary.isNaN x = false := plain rfl
    have second : Binary.isNaN y = false := (isSentinel_eq_of_compare h).symm.trans first
    simpa [key, first, second] using same
  | signed | unsigned | char | string => exact same

end Word

namespace Column

variable {env : Environment} {c d : Column k} {i : Nat} {a b w : Word k}

/-- An element as its column shows it. -/
def seen (c : Column k) (w : Word k) : Bool × Word k := (c.readsMissing w, w)

theorem compareSeen_seen : compareSeen (c.seen a) (d.seen b) =
    orderPresent (c.readsMissing a) (d.readsMissing b) (a.compare b) := by
  unfold compareSeen lastly seen
  cases c.readsMissing a <;> cases d.readsMissing b <;> rfl

theorem readsMissing_eq_false (h : w.isSentinel = false) : c.readsMissing w = false := by
  rw [readsMissing, h, Bool.and_false]

/-- Where the flag is fixed, an element that is not missing is no sentinel. -/
theorem isSentinel_eq_false_of_readsMissing (formed : c.WellFormed)
    (present : c.readsMissing w = false) (fixed : k.missingFixed = true) :
    w.isSentinel = false := by
  rw [readsMissing, formed.raised fixed] at present
  exact present

/-- Elements that are seen to be equal have words that compare equal and are missing on both sides
or on none. -/
theorem compareSeen_eq_iff : compareSeen (c.seen a) (d.seen b) = .eq ↔
    a.compare b = .eq ∧ c.readsMissing a = d.readsMissing b := by
  rw [compareSeen_seen]
  cases first : c.readsMissing a <;> cases second : d.readsMissing b
  case true.true =>
    have left : a.isSentinel = true := (Bool.and_eq_true_iff.mp first).2
    have right : b.isSentinel = true := (Bool.and_eq_true_iff.mp second).2
    simp [orderPresent, Word.compare_eq_of_isSentinel left right]
  all_goals simp [orderPresent]

theorem elementDifference_eq_none_iff :
    c.elementDifference d i a b = none ↔ compareSeen (c.seen a) (d.seen b) = .eq := by
  rw [compareSeen_eq_iff]
  simp only [elementDifference, ite_eq_left_iff, reduceCtorEq, imp_false, Decidable.not_not,
    Bool.and_eq_true, Ordering.isEq_iff_eq_eq, Bool.or_eq_true, Bool.not_eq_true', beq_iff_eq]
  refine and_congr_right fun equal => or_iff_right_of_imp fun plain => ?_
  have other := (Word.isSentinel_eq_of_compare equal).symm.trans plain
  rw [readsMissing_eq_false plain, readsMissing_eq_false other]

theorem differenceFrom_eq_none_iff (n : Nat) (as bs : List (Word k)) :
    c.differenceFrom d n as bs = none ↔ ∀ (i : Nat) (a b : Word k), as[i]? = some a →
      bs[i]? = some b → compareSeen (c.seen a) (d.seen b) = .eq := by
  induction as generalizing n bs with
  | nil => simp [differenceFrom]
  | cons x as ih =>
    cases bs with
    | nil => simp [differenceFrom]
    | cons y bs =>
      rw [differenceFrom, Option.or_eq_none_iff, elementDifference_eq_none_iff, ih]
      constructor
      · rintro ⟨first, rest⟩ i a b ha hb
        cases i with
        | zero =>
          cases ha
          cases hb
          exact first
        | succ i => exact rest i a b ha hb
      · intro all
        exact ⟨all 0 x y rfl rfl, fun i a b ha hb => all (i + 1) a b ha hb⟩

/-- Columns of one size that show equal elements at the same places. -/
def Alike (c d : Column k) : Prop :=
  c.size = d.size ∧ ∀ (i : Nat) (a b : Word k), c.words[i]? = some a → d.words[i]? = some b →
    compareSeen (c.seen a) (d.seen b) = .eq

theorem difference_eq_none_iff : c.difference d = none ↔ c.Alike d := by
  unfold difference Alike
  by_cases same : c.size = d.size <;> simp [same, differenceFrom_eq_none_iff]

theorem Alike.refl (c : Column k) : c.Alike c := by
  refine ⟨rfl, fun i a b ha hb => ?_⟩
  cases ha.symm.trans hb
  exact ReflCmp.compare_self

/-- Capacities play no part. -/
theorem alike_of_words (hc : c.WellFormed) (hd : d.WellFormed) (words : c.words = d.words)
    (flags : c.flag = d.flag) : c.Alike d := by
  refine ⟨by rw [← hc.length_words, ← hd.length_words, words], fun i a b ha hb => ?_⟩
  rw [words] at ha
  cases ha.symm.trans hb
  have same : c.seen a = d.seen a := by rw [seen, seen, readsMissing, readsMissing, flags]
  rw [same]
  exact ReflCmp.compare_self

theorem Alike.symm (h : c.Alike d) : d.Alike c :=
  ⟨h.1.symm, fun i a b ha hb => OrientedCmp.eq_symm (h.2 i b a hb ha)⟩

theorem sameAs_iff : AnyColumn.sameAs ⟨c⟩ ⟨d⟩ = true ↔ c.Alike d := by
  rw [← difference_eq_none_iff]
  simp [AnyColumn.sameAs, AnyColumn.as?]

/-- Elements that are seen to be equal are missing on both sides or the same word. -/
theorem eq_of_compareSeen (hc : c.WellFormed)
    (h : compareSeen (c.seen a) (d.seen b) = .eq) :
    c.readsMissing a = d.readsMissing b ∧ (c.readsMissing a = false → a = b) := by
  obtain ⟨equal, missing⟩ := compareSeen_eq_iff.mp h
  refine ⟨missing, fun present => Word.eq_of_compare equal ?_⟩
  exact isSentinel_eq_false_of_readsMissing hc present

/-- Comparing within a kind takes elements as their columns show them. -/
theorem compareAt_same (i j : Nat) : c.compareAt i ⟨d⟩ j = do
    let a ← c.wordAt i
    let b ← d.wordAt j
    return compareSeen (c.seen a) (d.seen b) := by
  simp only [compareSeen_seen]
  simp [compareAt, comparePresent]

section

variable (hc : c.WellFormed) (hd : d.WellFormed)
include hc hd

theorem Alike.length_eq (h : c.Alike d) : c.words.length = d.words.length := by
  rw [hc.length_words, hd.length_words, h.1]

theorem Alike.trans {e : Column k} (h₁ : c.Alike d) (h₂ : d.Alike e) : c.Alike e := by
  refine ⟨h₁.1.trans h₂.1, fun i a b ha hb => ?_⟩
  obtain ⟨inside, -⟩ := List.getElem?_eq_some_iff.mp ha
  rw [h₁.length_eq hc hd] at inside
  have middle := List.getElem?_eq_getElem inside
  exact TransCmp.eq_trans (h₁.2 i a _ ha middle) (h₂.2 i _ b middle hb)

/-- Columns are alike when they compare equal element by element. -/
theorem alike_iff_compareAt :
    c.Alike d ↔ c.size = d.size ∧ ∀ i < c.size, c.compareAt i ⟨d⟩ i = .ok .eq := by
  refine and_congr_right fun sizes => ?_
  have elements := hc.length_words
  have others := hd.length_words
  constructor
  · intro all i inside
    have left : c.words[i]? = some c.words[i] := List.getElem?_eq_getElem (by omega)
    have right : d.words[i]? = some d.words[i] := List.getElem?_eq_getElem (by omega)
    rw [compareAt_same, (wordAt_eq_ok_iff hc).mpr left, (wordAt_eq_ok_iff hd).mpr right]
    exact congrArg Except.ok (all i _ _ left right)
  · intro all i a b left right
    obtain ⟨inside, -⟩ := List.getElem?_eq_some_iff.mp left
    have equal := all i (by omega)
    rw [compareAt_same, (wordAt_eq_ok_iff hc).mpr left, (wordAt_eq_ok_iff hd).mpr right] at equal
    exact Except.ok.inj equal

/-! ## What alike columns share -/

/-- What is read from an element alone, without regard to the word where it is missing, is the same
in alike columns; so is the failure where there is no element. -/
theorem Alike.read_eq {α : Type} (h : c.Alike d) (f : Bool → Word k → α)
    (missing : ∀ a b, f true a = f true b) (i : Nat) :
    (c.wordAt i >>= fun w => pure (f (c.readsMissing w) w)) =
      d.wordAt i >>= fun w => pure (f (d.readsMissing w) w) := by
  have elements := hc.length_words
  have others := hd.length_words
  have sizes := h.1
  by_cases inside : i < c.size
  · have left : c.words[i]? = some c.words[i] := List.getElem?_eq_getElem (by omega)
    have right : d.words[i]? = some d.words[i] := List.getElem?_eq_getElem (by omega)
    obtain ⟨same, present⟩ := eq_of_compareSeen hc (h.2 i _ _ left right)
    rw [(wordAt_eq_ok_iff hc).mpr left, (wordAt_eq_ok_iff hd).mpr right]
    refine congrArg Except.ok ?_
    rw [← same]
    cases reads : c.readsMissing c.words[i] with
    | true => exact missing _ _
    | false => rw [present reads]
  · simp only [wordAt, inside, ← sizes, if_false]
    rfl

theorem Alike.hashCode_eq (h : c.Alike d) : c.hashCode = d.hashCode := by
  have terms : c.words.map Word.hashTerm = d.words.map Word.hashTerm := by
    refine List.ext_getElem (by simp [h.length_eq hc hd]) fun i hi hj => ?_
    simp only [List.length_map] at hi hj
    have equal := h.2 i _ _ (List.getElem?_eq_getElem hi) (List.getElem?_eq_getElem hj)
    simpa using Word.hashTerm_eq_of_compare (compareSeen_eq_iff.mp equal).1
  unfold hashCode
  rw [← List.foldl_map (f := Word.hashTerm) (g := Word.hashStep),
    ← List.foldl_map (f := Word.hashTerm) (g := Word.hashStep), terms]

end

end Column

namespace AnyColumn

variable {env : Environment} {a b d : AnyColumn}

/-- Only a column of the same kind can be equal. -/
theorem exists_of_sameAs (h : a.sameAs b = true) :
    ∃ c : Column a.kind, b = ⟨c⟩ ∧ a.column.Alike c := by
  unfold sameAs at h
  split at h
  case h_1 c same =>
    obtain rfl := as?_eq_some_iff.mp same
    exact ⟨c, rfl, Column.difference_eq_none_iff.mp (Option.isNone_iff_eq_none.mp h)⟩
  case h_2 => cases h

theorem differenceMessage_eq_none_iff : a.differenceMessage b = none ↔ a.sameAs b = true := by
  unfold differenceMessage sameAs
  cases b.as? a.kind <;> simp

theorem sameAs_refl (a : AnyColumn) : a.sameAs a = true := Column.sameAs_iff.mpr (.refl a.column)

theorem sameAs_symm (h : a.sameAs b = true) : b.sameAs a = true := by
  obtain ⟨c, rfl, alike⟩ := exists_of_sameAs h
  exact Column.sameAs_iff.mpr alike.symm

theorem sameAs_trans (fa : a.column.WellFormed) (fb : b.column.WellFormed)
    (h₁ : a.sameAs b = true) (h₂ : b.sameAs d = true) : a.sameAs d = true := by
  obtain ⟨c, rfl, first⟩ := exists_of_sameAs h₁
  obtain ⟨e, rfl, second⟩ := exists_of_sameAs h₂
  exact Column.sameAs_iff.mpr (first.trans fa fb second)

theorem sameAs_of_kind_ne (h : a.kind ≠ b.kind) : a.sameAs b = false := by
  refine Bool.eq_false_iff.mpr fun same => ?_
  obtain ⟨c, rfl, -⟩ := exists_of_sameAs same
  exact h rfl

theorem sameAs_iff_compareAt (fa : a.column.WellFormed) (fb : b.column.WellFormed) :
    a.sameAs b = true ↔ a.kind = b.kind ∧ a.column.size = b.column.size ∧
      ∀ i < a.column.size, a.column.compareAt i b i = .ok .eq := by
  by_cases kinds : a.kind = b.kind
  · obtain ⟨c⟩ := a
    obtain ⟨d⟩ := b
    cases kinds
    simpa using Column.sameAs_iff.trans (Column.alike_iff_compareAt fa fb)
  · simp [sameAs_of_kind_ne kinds, kinds]

/-- Equal columns take the place of each other on the left of an equality. -/
theorem sameAs_congr (fa : a.column.WellFormed) (fb : b.column.WellFormed)
    (same : a.sameAs b = true) : a.sameAs d = b.sameAs d :=
  Bool.eq_iff_iff.mpr
    ⟨sameAs_trans fb fa (sameAs_symm same), sameAs_trans fa fb same⟩

theorem sameAs_comm : a.sameAs b = b.sameAs a := Bool.eq_iff_iff.mpr ⟨sameAs_symm, sameAs_symm⟩

end AnyColumn

namespace Column

variable {env : Environment}

/-- Equality of reachable columns is an equivalence, which the description of differences and the
comparison element by element agree with. Columns of different kinds are never equal. Equal columns
have the same hash code and read alike at every index. Neither depends on the capacity: columns of
the same words and flag are equal to the same columns and have the same hash code. -/
theorem Reachable.equality_laws {a b d : AnyColumn} (ha : Reachable env a.column)
    (hb : Reachable env b.column) :
    a.sameAs a = true ∧ (a.sameAs b = true → b.sameAs a = true) ∧
      (a.sameAs b = true → b.sameAs d = true → a.sameAs d = true) ∧
      (a.differenceMessage b = none ↔ a.sameAs b = true) ∧
      (a.sameAs b = true ↔ a.kind = b.kind ∧ a.column.size = b.column.size ∧
        ∀ i < a.column.size, a.column.compareAt i b i = .ok .eq) ∧
      (a.sameAs b = true → a.column.hashCode = b.column.hashCode ∧
        ∀ i, a.column.missingAt i = b.column.missingAt i ∧
          a.column.integerAt i = b.column.integerAt i ∧ a.column.textAt i = b.column.textAt i ∧
          (∀ quote, a.column.jsonAt quote i = b.column.jsonAt quote i) ∧
          a.column.scalarAt i = b.column.scalarAt i) ∧
      (a.kind ≠ b.kind → a.sameAs b = false) ∧
      ∀ c : Column a.kind, Reachable env c → c.words = a.column.words → c.flag = a.column.flag →
        AnyColumn.sameAs ⟨c⟩ b = a.sameAs b ∧ b.sameAs ⟨c⟩ = b.sameAs a ∧
          c.hashCode = a.column.hashCode := by
  have fa := ha.wellFormed
  have fb := hb.wellFormed
  refine ⟨a.sameAs_refl, AnyColumn.sameAs_symm, AnyColumn.sameAs_trans fa fb,
    AnyColumn.differenceMessage_eq_none_iff, AnyColumn.sameAs_iff_compareAt fa fb, fun same => ?_,
    AnyColumn.sameAs_of_kind_ne, fun c hc words flags => ?_⟩
  · obtain ⟨c, rfl, alike⟩ := AnyColumn.exists_of_sameAs same
    refine ⟨alike.hashCode_eq fa fb, fun i => ⟨?_, ?_, ?_, fun quote => ?_, ?_⟩⟩
    · exact alike.read_eq fa fb (fun missing _ => missing) (fun _ _ => rfl) i
    · exact alike.read_eq fa fb (fun missing w => if missing then none else w.toInt)
        (fun _ _ => rfl) i
    · exact alike.read_eq fa fb (fun missing w => if missing then "" else w.valueText)
        (fun _ _ => rfl) i
    · exact alike.read_eq fa fb (fun missing w => if missing then "null" else w.jsonText quote)
        (fun _ _ => rfl) i
    · exact alike.read_eq fa fb (fun missing w => Scalar.ofWord w missing) (fun _ _ => rfl) i
  · have same : AnyColumn.sameAs ⟨c⟩ a = true :=
      sameAs_iff.mpr (alike_of_words hc.wellFormed fa words flags)
    have left : AnyColumn.sameAs ⟨c⟩ b = a.sameAs b := AnyColumn.sameAs_congr hc.wellFormed fa same
    refine ⟨left, ?_, by rw [hashCode, hashCode, words]⟩
    rw [AnyColumn.sameAs_comm, left, AnyColumn.sameAs_comm]

/-- NaNs with different payloads and equal negative zeros. -/
theorem equality_of_two_nans :
    let a : Column .float := ofSlots #[0x7fc00001#32, 0x80000000#32] 2
    let b : Column .float := ofSlots #[0xffc00000#32, 0x80000000#32] 2
    AnyColumn.sameAs ⟨a⟩ ⟨b⟩ = true ∧ AnyColumn.sameAs ⟨b⟩ ⟨a⟩ = true ∧ a.hashCode = b.hashCode ∧
      a.missingAt 0 = b.missingAt 0 ∧ a.scalarAt 1 = b.scalarAt 1 := by
  intro a b
  have left : Reachable {} a := .ofWords [0x7fc00001#32, 0x80000000#32] rfl
  have right : Reachable {} b := .ofWords [0xffc00000#32, 0x80000000#32] rfl
  obtain ⟨-, symm, -, -, -, reads, -, -⟩ :=
    Reachable.equality_laws (a := ⟨a⟩) (b := ⟨b⟩) (d := ⟨b⟩) left right
  have same : AnyColumn.sameAs ⟨a⟩ ⟨b⟩ = true := by decide
  obtain ⟨hash, each⟩ := reads same
  exact ⟨same, symm same, hash, (each 0).1, (each 1).2.2.2.2⟩

end Column

end Columnar

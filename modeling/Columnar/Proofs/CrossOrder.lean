import Columnar.Proofs.Lowercase
import Columnar.Proofs.Promotion

/-!
# The order of elements of different kinds

Which currency two elements are compared in depends on both kinds, but not on their order, so that
exchanging the elements reverses the result. Elements that compare equal have the same text wherever
text is compared, and so the same lower-case text, which is all that a comparison without regard to
case looks at.

Among integer kinds, of whatever widths and signedness and whatever the flags say, all comparisons
are comparisons of integers, and the missing elements are one more value behind them.
-/

namespace Columnar

variable {k l : Kind}

namespace Word

theorem compareInt?_swap (m n : Option Int) : compareInt? n m = (compareInt? m n).swap := by
  cases m <;> cases n <;> first | rfl | exact Std.OrientedOrd.eq_swap

theorem crossCompare_swap (w : Word k) (u : Word l) :
    u.crossCompare w = (w.crossCompare u).swap := by
  unfold crossCompare
  rw [Bool.or_comm l.isText, Bool.or_comm l.isFloating]
  split
  · exact Std.OrientedOrd.eq_swap
  · split
    · exact Std.OrientedOrd.eq_swap
    · exact compareInt?_swap _ _

end Word

namespace Column

theorem orderPresent_swap (left right : Bool) (present : Ordering) :
    orderPresent right left present.swap = (orderPresent left right present).swap := by
  cases left <;> cases right <;> rfl

theorem comparePresent_swap (w : Word k) (u : Word l) :
    comparePresent u w = (comparePresent w u).swap := by
  by_cases kinds : l = k
  · subst kinds
    simp only [comparePresent, dif_pos]
    exact Std.OrientedCmp.eq_swap
  · simp only [comparePresent, dif_neg kinds, dif_neg (Ne.symm kinds)]
    exact Word.crossCompare_swap w u

/-- Where a kind is text, elements that compare equal have the same text. -/
theorem valueText_eq_of_comparePresent {w : Word k} {u : Word l}
    (text : (k.isText || l.isText) = true) (equal : comparePresent w u = .eq) :
    w.valueText = u.valueText := by
  unfold comparePresent at equal
  split at equal
  case isTrue kinds =>
    subst kinds
    have same : w.key = u.key := Word.compare_eq_iff.mp equal
    cases l with
    | char => exact congrArg Word.valueText same
    | string => exact congrArg Word.valueText same
    | signed | unsigned | floating => cases text
  case isFalse =>
    rw [Word.crossCompare, if_pos text] at equal
    exact Std.LawfulEqOrd.eq_of_compare equal

end Column

/-- An element of a column of whatever kind. -/
structure Element where
  column : AnyColumn
  index : Nat
  inside : index < column.column.size

namespace Element

variable (x y z : Element)

/-- The order of two elements. -/
def compare : Except ColumnError Ordering := x.column.column.compareAt x.index y.column y.index

def compareIgnoringCase : Except ColumnError Ordering :=
  x.column.column.compareAtIgnoringCase x.index y.column y.index

def missing : Except ColumnError Bool := x.column.column.missingAt x.index

def integer : Except ColumnError (Option Int) := x.column.column.integerAt x.index

def IsInteger : Prop := x.column.kind.isInteger = true

/-- One element does not follow the other. -/
def AtMost : Prop := ∃ o, x.compare y = .ok o ∧ o.isLE = true

/-! ## What the comparisons yield -/

def word : Word x.column.kind := x.column.column.slots.getD x.index (Word.zero _)

def isMissing : Bool := x.column.column.readsMissing x.word

theorem wordAt_eq : x.column.column.wordAt x.index = .ok x.word := if_pos x.inside

theorem missing_eq_ok_iff {m : Bool} : x.missing = .ok m ↔ x.isMissing = m := by
  have read : x.missing = .ok x.isMissing := by
    rw [missing, Column.missingAt, wordAt_eq]
    rfl
  rw [read]
  exact ⟨Except.ok.inj, congrArg Except.ok⟩

theorem integer_eq : x.integer = .ok (x.column.column.integerOf x.word) := by
  rw [integer, Column.integerAt, wordAt_eq]
  rfl

theorem compare_eq : x.compare y =
    .ok (Column.orderPresent x.isMissing y.isMissing (Column.comparePresent x.word y.word)) := by
  rw [compare, Column.compareAt, wordAt_eq, wordAt_eq]
  rfl

/-- The order of two elements that are not missing, without regard to case. -/
def presentIgnoringCase : Ordering :=
  if !x.column.kind.isText && !y.column.kind.isText then Column.comparePresent x.word y.word
  else Ord.compare (Text.lowercase x.word.valueText) (Text.lowercase y.word.valueText)

theorem compareIgnoringCase_eq : x.compareIgnoringCase y =
    .ok (Column.orderPresent x.isMissing y.isMissing (x.presentIgnoringCase y)) := by
  rw [compareIgnoringCase, Column.compareAtIgnoringCase, presentIgnoringCase]
  split
  · exact compare_eq x y
  · rw [wordAt_eq, wordAt_eq]
    rfl

theorem presentIgnoringCase_swap :
    y.presentIgnoringCase x = (x.presentIgnoringCase y).swap := by
  unfold presentIgnoringCase
  rw [Bool.and_comm (!y.column.kind.isText)]
  split
  · exact Column.comparePresent_swap _ _
  · exact Std.OrientedOrd.eq_swap

theorem presentIgnoringCase_eq (equal : Column.comparePresent x.word y.word = .eq) :
    x.presentIgnoringCase y = .eq := by
  unfold presentIgnoringCase
  split
  · exact equal
  · have text : (x.column.kind.isText || y.column.kind.isText) = true := by grind
    rw [Column.valueText_eq_of_comparePresent text equal]
    exact Std.ReflOrd.compare_self

/-- Where text is involved, two elements that are not missing compare equal without regard to case if
their texts are the same in lower case. -/
theorem compareIgnoringCase_eq_ok_iff (text : x.column.kind.isText || y.column.kind.isText)
    (px : x.isMissing = false) (py : y.isMissing = false) :
    x.compareIgnoringCase y = .ok .eq ↔
      Text.lowercase x.word.valueText = Text.lowercase y.word.valueText := by
  have texts : ¬ (!x.column.kind.isText && !y.column.kind.isText) = true := by grind
  rw [compareIgnoringCase_eq, px, py, presentIgnoringCase, if_neg texts, Except.ok.injEq]
  exact Std.LawfulEqOrd.compare_eq_iff_eq

/-- A text that is put in lower case compares equal to the one that it was. -/
theorem compareIgnoringCase_eq_of_lowercase (text : x.column.kind.isText || y.column.kind.isText)
    (px : x.isMissing = false) (py : y.isMissing = false)
    (lower : y.word.valueText = Text.lowercase x.word.valueText) :
    x.compareIgnoringCase y = .ok .eq := by
  rw [compareIgnoringCase_eq_ok_iff x y text px py, lower, Text.lowercase_lowercase]

/-! ## Elements of integer columns -/

section

variable {x y z : Element} (hx : x.IsInteger) (hy : y.IsInteger)
include hx hy

theorem compare_eq_compareIntegers :
    x.compare y = .ok (Column.compareIntegers (x.column.column.integerOf x.word)
      (y.column.column.integerOf y.word)) := by
  rw [compare_eq]
  exact congrArg Except.ok (Column.orderPresent_eq_compareIntegers hx hy)

theorem atMost_iff :
    x.AtMost y ↔ (Column.compareIntegers (x.column.column.integerOf x.word)
      (y.column.column.integerOf y.word)).isLE = true := by
  unfold AtMost
  rw [compare_eq_compareIntegers hx hy]
  constructor
  · rintro ⟨o, ⟨⟩, below⟩
    exact below
  · intro below
    exact ⟨_, rfl, below⟩

theorem atMost_total : x.AtMost y ∨ y.AtMost x := by
  have swap : Column.compareIntegers (y.column.column.integerOf y.word)
      (x.column.column.integerOf x.word) = (Column.compareIntegers
        (x.column.column.integerOf x.word) (y.column.column.integerOf y.word)).swap :=
    Std.OrientedCmp.eq_swap
  rw [atMost_iff hx hy, atMost_iff hy hx, swap]
  grind [Ordering.isLE, Ordering.swap]

theorem atMost_trans (hz : z.IsInteger) (first : x.AtMost y) (second : y.AtMost z) :
    x.AtMost z := by
  rw [atMost_iff hx hy] at first
  rw [atMost_iff hy hz] at second
  rw [atMost_iff hx hz]
  exact Std.TransCmp.isLE_trans first second

/-- Elements that are not missing compare as the integers that they are. -/
theorem exists_compare_eq (px : x.missing = .ok false) (py : y.missing = .ok false) :
    ∃ m n, x.integer = .ok (some m) ∧ y.integer = .ok (some n) ∧
      x.compare y = .ok (Ord.compare m n) := by
  rw [missing_eq_ok_iff] at px py
  obtain ⟨m, left, -⟩ := x.word.exists_toInt hx
  obtain ⟨n, right, -⟩ := y.word.exists_toInt hy
  have first : x.column.column.integerOf x.word = some m :=
    (if_neg (ne_true_of_eq_false px)).trans left
  have second : y.column.column.integerOf y.word = some n :=
    (if_neg (ne_true_of_eq_false py)).trans right
  refine ⟨m, n, ?_, ?_, ?_⟩
  · rw [integer_eq, first]
  · rw [integer_eq, second]
  · rw [compare_eq_compareIntegers hx hy, first, second]
    rfl

end

/-- Exchanging two elements of any kinds reverses either comparison. Elements that compare equal do
so without regard to case as well. A missing element follows every other one, whatever the kinds,
and equals every missing one. Among integer columns of mixed kinds and flags the comparison is a
total preorder, in which elements that are not missing are ordered by their integers. -/
theorem comparison_laws (x y z : Element) :
    (∃ o, x.compare y = .ok o ∧ y.compare x = .ok o.swap) ∧
      (∃ o, x.compareIgnoringCase y = .ok o ∧ y.compareIgnoringCase x = .ok o.swap) ∧
      (x.compare y = .ok .eq → x.compareIgnoringCase y = .ok .eq) ∧
      (x.missing = .ok true → y.missing = .ok false →
        x.compare y = .ok .gt ∧ x.compareIgnoringCase y = .ok .gt) ∧
      (x.missing = .ok true → y.missing = .ok true →
        x.compare y = .ok .eq ∧ x.compareIgnoringCase y = .ok .eq) ∧
      (x.IsInteger → y.IsInteger → z.IsInteger →
        (x.AtMost y ∨ y.AtMost x) ∧ (x.AtMost y → y.AtMost z → x.AtMost z) ∧
          (x.missing = .ok false → y.missing = .ok false →
            ∃ m n, x.integer = .ok (some m) ∧ y.integer = .ok (some n) ∧
              x.compare y = .ok (Ord.compare m n))) := by
  refine ⟨⟨_, compare_eq x y, ?_⟩, ⟨_, compareIgnoringCase_eq x y, ?_⟩, ?_, ?_, ?_, ?_⟩
  · rw [compare_eq, Column.comparePresent_swap, Column.orderPresent_swap]
  · rw [compareIgnoringCase_eq, presentIgnoringCase_swap, Column.orderPresent_swap]
  · rw [compare_eq, compareIgnoringCase_eq]
    intro equal
    have present := presentIgnoringCase_eq x y
    cases first : x.isMissing <;> cases second : y.isMissing <;>
      simp_all [Column.orderPresent]
  · rw [missing_eq_ok_iff, missing_eq_ok_iff, compare_eq, compareIgnoringCase_eq]
    intro first second
    rw [first, second]
    exact ⟨rfl, rfl⟩
  · rw [missing_eq_ok_iff, missing_eq_ok_iff, compare_eq, compareIgnoringCase_eq]
    intro first second
    rw [first, second]
    exact ⟨rfl, rfl⟩
  · intro hx hy hz
    exact ⟨atMost_total hx hy, atMost_trans hx hy hz, exists_compare_eq hx hy⟩

/-- The same bits in a signed and an unsigned column, and a missing element of a third one. -/
theorem comparison_of_mixed_bytes :
    let x : Element := ⟨⟨(Column.ofSlots #[255#8] 1 : Column .byte)⟩, 0, by decide⟩
    let y : Element := ⟨⟨(Column.ofSlots #[255#8] 1 : Column .ubyte)⟩, 0, by decide⟩
    let z : Element := ⟨⟨(⟨#[0x7FFF#16], 1, true⟩ : Column .short)⟩, 0, by decide⟩
    x.compare y = .ok (Ord.compare (-1) 255) ∧ z.compare y = .ok .gt ∧ (x.AtMost y → y.AtMost z →
      x.AtMost z) := by
  intro x y z
  obtain ⟨-, -, -, -, -, ordered⟩ := comparison_laws x y z
  obtain ⟨-, -, -, last, -⟩ := comparison_laws z y x
  obtain ⟨-, trans, values⟩ := ordered rfl rfl rfl
  obtain ⟨m, n, first, second, compared⟩ := values rfl rfl
  cases first
  cases second
  exact ⟨compared, (last rfl rfl).1, trans⟩

end Element

end Columnar

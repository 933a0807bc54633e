import Columnar.Proofs.DoubleRounding
import Columnar.Proofs.NumberTexts
import Columnar.Proofs.TextRoundTrips

/-!
# Round trips of floating numbers through text

A number is shown with the digits that tell it apart from all others of its own format, while every
literal is read as a double first. A double comes back from its text as it was. A single does so,
too, unless it is the largest one, whose digits denote a double beyond the singles, or the one whose
digits are read as a double halfway between it and the next.

## Main definitions

* `Binary.IsLost`: the singles that do not come back from their text.

## Main statements

* `Column.Reachable.reads_display_iff`: what a floating column is read as from its display.
-/

namespace Columnar

variable {p : Precision} {env : Environment}

namespace Binary

variable {x : Binary p} {m : Nat}

/-! ## Single numbers -/

/-- The singles, of either sign, that do not come back from their text. -/
def IsLost (x : Binary p) : Prop :=
  p = .single ∧ (x.magnitude = 0x15AE43FD ∨ x.magnitude = 0x7F7FFFFF)

instance (x : Binary p) : Decidable x.IsLost := inferInstanceAs (Decidable (_ ∧ _))

theorem fracBits_le (p : Precision) : p.fracBits ≤ 52 := by cases p <;> decide

section

variable {d : Decimal} {num den : Nat} (positive : 0 < den) (quotient : d.value = num / den)
include positive quotient

/-- A double is what any decimal in its interval is rounded to. -/
theorem ofDouble_ofQuotient_double (negative : Bool) (finite : m < Precision.double.infinity)
    (contained : (Precision.double.roundingInterval m).Contains
      (d.value * Precision.double.quarters)) :
    ofDouble .double (ofQuotient negative num den) = some (ofParts negative m) := by
  have rounded : Precision.double.roundUnits (num * 2 ^ Precision.double.unitExp) den = m := by
    refine Precision.roundUnits_eq_of_contains positive (Nat.le_of_lt finite) ?_
    have scaled : 4 * ((num * 2 ^ Precision.double.unitExp : ℕ) : ℚ) / den =
        d.value * Precision.double.quarters := by
      rw [quotient, Precision.quarters, Nat.pow_add]
      push_cast
      ring
    rwa [scaled]
  have number : (ofParts negative m : Binary .double).isNaN = false :=
    isNaN_ofParts (Nat.le_of_lt finite)
  rw [ofQuotient, rounded, ofDouble, number]
  rfl

/-- A single is what the double of its shortest digits is rounded to. -/
theorem ofDouble_ofQuotient_single (negative : Bool) (inner : m + 1 < Precision.single.infinity)
    (other : m ≠ 0x15AE43FD)
    (contained : (Precision.single.roundingInterval m).Contains
      (d.value * Precision.single.quarters))
    (spaced : (Precision.single.roundingInterval m).Spaced (d.value * Precision.single.quarters)
      (10 ^ d.exponent * Precision.single.quarters)) :
    ofDouble .single (ofQuotient negative num den) = some (ofParts negative m) := by
  have finite : m < Precision.single.infinity := by omega
  have top := infinity_lt_signWeight .double
  have grid : (num / den : ℚ) = d.digits * 10 ^ d.exponent := quotient.symm
  rw [quotient] at contained spaced
  have inside := Precision.contains_doubleQuarters positive finite grid contained spaced other
  have below := Precision.asDouble_le_largestSingle positive contained inner
  obtain ⟨-, -, bound⟩ := Precision.doubleQuarters_bounds positive finite contained
  have double : ofQuotient negative num den = ofParts negative (Precision.asDouble num den) := rfl
  rw [double, ofDouble_single (isNaN_ofParts (Nat.le_of_lt bound))
    (fun _ => by rwa [magnitude_ofParts (by omega)]), convert_ofParts bound,
    Precision.roundUnits_of_contains finite inside]

end

/-- The shortest digits of a magnitude, read as a double and brought back to the format. -/
theorem ofDouble_shortest (negative : Bool) (positive : 0 < m) (finite : m < p.infinity)
    (kept : p = .single → m ≠ 0x15AE43FD ∧ m ≠ 0x7F7FFFFF) :
    ofDouble p (Numeral.doubleOfText ((if negative then ['-'] else []) ++ (p.shortest m).text)) =
      some (ofParts negative m) := by
  obtain ⟨d, same, contained, spaced⟩ := Precision.exists_shortest (fracBits_le p) positive
  obtain ⟨num, den, some_den, quotient⟩ := d.exists_quotient
  rw [Numeral.doubleOfText_text negative some_den (same.trans quotient)]
  cases p with
  | double => exact ofDouble_ofQuotient_double some_den quotient negative finite contained
  | single =>
    obtain ⟨other, last⟩ := kept rfl
    have inner : m + 1 < Precision.single.infinity := by
      change m < 0x7F800000 at finite
      change m + 1 < 0x7F800000
      omega
    exact ofDouble_ofQuotient_single some_den quotient negative inner other contained spaced

/-- The texts of the numbers without digits of their own. -/
theorem ofDouble_words (p : Precision) (negative : Bool) :
    ofDouble p (Numeral.doubleOfText ((if negative then ['-'] else []) ++ ['0', '.', '0'])) =
        some (ofParts negative 0) ∧
      ofDouble p (Numeral.doubleOfText (if negative then "-Infinity" else "Infinity").toList) =
        some (ofParts negative p.infinity) ∧
      ofDouble p (Numeral.doubleOfText "NaN".toList) = none := by
  cases p <;> cases negative <;> decide +kernel

/-- A number that is not lost is what its text denotes. -/
theorem ofText_text (number : x.isNaN = false) (kept : ¬ x.IsLost) :
    Word.ofText (.floating p) x.text = some x := by
  obtain ⟨zero, infinite, -⟩ := ofDouble_words p x.isNegative
  have whole := ofParts_magnitude x
  change ofDouble p (Numeral.doubleOfText x.text.toList) = some x
  unfold text
  rw [number, if_neg Bool.false_ne_true]
  cases top : x.isInfinite with
  | true =>
    have magnitude : x.magnitude = p.infinity := eq_of_beq top
    rw [if_pos rfl, infinite, ← magnitude, whole]
  | false =>
    have finite : x.magnitude < p.infinity := by
      have bound : ¬ p.infinity < x.magnitude := of_decide_eq_false number
      have apart : x.magnitude ≠ p.infinity := ne_of_beq_false top
      omega
    rw [if_neg Bool.false_ne_true, String.toList_ofList, finiteText]
    by_cases nothing : x.magnitude = 0
    · rw [if_pos nothing, zero, ← nothing, whole]
    · have others : p = .single → x.magnitude ≠ 0x15AE43FD ∧ x.magnitude ≠ 0x7F7FFFFF :=
        fun single => ⟨fun same => kept ⟨single, .inl same⟩, fun same => kept ⟨single, .inr same⟩⟩
      rw [if_neg nothing, ofDouble_shortest x.isNegative (by omega) finite others, whole]

/-- A lost single is read as another number, or as none. -/
theorem ofText_text_ne (lost : x.IsLost) : Word.ofText (.floating p) x.text ≠ some x := by
  have table (negative : Bool) :
      ofDouble .single (Numeral.doubleOfText
          (text (p := .single) (ofParts negative 0x15AE43FD)).toList) =
        some (ofParts negative 0x15AE43FE) ∧
      ofDouble .single (Numeral.doubleOfText
          (text (p := .single) (ofParts negative 0x7F7FFFFF)).toList) = none := by
    cases negative <;> decide +kernel
  obtain ⟨tie, beyond⟩ := table x.isNegative
  have whole := ofParts_magnitude x
  obtain ⟨rfl, same | same⟩ := lost
  · rw [same] at whole
    change ofDouble .single (Numeral.doubleOfText x.text.toList) ≠ some x
    rw [← whole, tie]
    have next (negative : Bool) : some (ofParts negative 0x15AE43FE : Binary .single) ≠
        some (ofParts negative 0x15AE43FD) := by cases negative <;> decide
    exact next x.isNegative
  · rw [same] at whole
    change ofDouble .single (Numeral.doubleOfText x.text.toList) ≠ some x
    rw [← whole, beyond]
    exact Option.some_ne_none _ |>.symm

theorem ofText_text_of_isNaN (nan : x.isNaN = true) :
    Word.ofText (.floating p) x.text = none := by
  obtain ⟨-, -, none⟩ := ofDouble_words p true
  change ofDouble p (Numeral.doubleOfText x.text.toList) = _
  rw [text, if_pos nan]
  exact none

theorem isPlain_text (x : Binary p) : Text.IsPlain x.text.toList := by
  have words (s : String) (listed : s ∈ ["NaN", "Infinity", "-Infinity", "0.0", "-0.0"]) :
      Text.IsPlain s.toList := by
    have table : ∀ s ∈ ["NaN", "Infinity", "-Infinity", "0.0", "-0.0"], s.toList ≠ [] ∧
        ',' ∉ s.toList ∧ '"' ∉ s.toList ∧
        (s.toList.all fun c => !Text.isWhiteSpace c) = true := by decide
    obtain ⟨some_char, comma, quote, bare⟩ := table s listed
    exact ⟨some_char, comma, quote, by simpa using bare⟩
  unfold text
  split_ifs with nan infinite negative
  · exact words _ (by simp)
  · exact words _ (by simp)
  · exact words _ (by simp)
  · rw [String.toList_ofList, finiteText]
    split_ifs with negative zero zero
    · exact words "-0.0" (by simp)
    · exact Numeral.isPlain_text true _
    · exact words "0.0" (by simp)
    · exact Numeral.isPlain_text false _

/-- What stands in a column for a number that was written and read. -/
def readBack (x : Binary p) : Binary p := Column.stored (Word.ofText (.floating p) x.text)

theorem isNaN_eq_false_of_isLost (lost : x.IsLost) : x.isNaN = false := by
  obtain ⟨rfl, same | same⟩ := lost
  · rw [isNaN, same]
    rfl
  · rw [isNaN, same]
    rfl

theorem isNaN_readBack (nan : x.isNaN = true) : x.readBack.isNaN = true := by
  rw [readBack, ofText_text_of_isNaN nan]
  exact isNaN_nan

/-- Numbers come back bit by bit, except for the lost ones. -/
theorem readBack_eq_iff (number : x.isNaN = false) : x.readBack = x ↔ ¬ x.IsLost := by
  refine ⟨fun same lost => ?_, fun kept => by rw [readBack, ofText_text number kept]; rfl⟩
  unfold readBack at same
  cases read : Word.ofText (.floating p) x.text with
  | none =>
    rw [read] at same
    have nan : x.isNaN = true := by
      rw [← same]
      exact isNaN_nan
    cases number.symm.trans nan
  | some y =>
    rw [read] at same
    exact ofText_text_ne lost (read.trans (congrArg some same))

end Binary

namespace Column

variable {c d : Column (.floating p)}

/-! ## Columns -/

theorem items_floating_display :
    (Text.splitCsv c.display).map (Word.ofText (.floating p)) =
      c.words.map fun x => Word.ofText (.floating p) (Binary.text x) := by
  have plain (s : String) (listed : s ∈ c.words.map Word.displayText) : Text.IsPlain s.toList := by
    obtain ⟨x, -, rfl⟩ := List.mem_map.mp listed
    exact Binary.isPlain_text x
  rw [display, Text.splitCsv_intercalate _ plain, List.map_map]
  rfl

section

variable (hc : c.WellFormed) (hd : d.WellFormed)
include hc hd

/-- What is read for an element equals it, unless the element is lost. -/
theorem compareSeen_readBack (x : Binary p) :
    compareSeen (d.seen x.readBack) (c.seen x) = .eq ↔ ¬ x.IsLost := by
  have flags : d.flag = c.flag := (hd.raised rfl).trans (hc.raised rfl).symm
  cases nan : x.isNaN with
  | true =>
    have kept : ¬ x.IsLost := fun lost => by
      cases (Binary.isNaN_eq_false_of_isLost lost).symm.trans nan
    have back : Word.isSentinel (k := .floating p) x.readBack = true := Binary.isNaN_readBack nan
    have first : Word.isSentinel (k := .floating p) x = true := nan
    refine iff_of_true (compareSeen_eq_iff.mpr ⟨Word.compare_eq_of_isSentinel back first, ?_⟩) kept
    rw [readsMissing, readsMissing, flags, back, first]
  | false =>
    have present : c.readsMissing (k := .floating p) x = false := readsMissing_eq_false nan
    rw [← Binary.readBack_eq_iff nan]
    constructor
    · intro equal
      obtain ⟨missing, same⟩ := eq_of_compareSeen hd equal
      exact same (missing.trans present)
    · intro same
      have shows : d.seen x = c.seen x := by rw [seen, seen, readsMissing, readsMissing, flags]
      rw [same, shows]
      exact compareSeen_self _

/-- A column of what is read for the elements of another one equals it if none of them is lost. -/
theorem alike_readBack_iff (made : d.words = c.words.map Binary.readBack) :
    d.Alike c ↔ ∀ x ∈ c.words, ¬ Binary.IsLost x := by
  have sizes : d.size = c.size := by
    rw [← hd.length_words, ← hc.length_words, made, List.length_map]
  constructor
  · rintro ⟨-, all⟩ x listed
    obtain ⟨i, here⟩ := List.getElem?_of_mem listed
    refine (compareSeen_readBack hc hd x).mp (all i x.readBack x ?_ here)
    rw [made, List.getElem?_map, here]
    rfl
  · intro kept
    refine ⟨sizes, fun i a x there here => ?_⟩
    rw [made, List.getElem?_map, here] at there
    cases there
    exact (compareSeen_readBack hc hd x).mpr (kept x (List.mem_of_getElem? here))

end

/-- The display of a floating column is read as a column of as many elements. An element that is no
number is missing there, and a number is the same word, unless it is lost. So the column that is
read equals the displayed one exactly if no element is lost. Reading is refused exactly if memory
forbids a buffer for so many elements. -/
theorem Reachable.reads_display_iff (h : Reachable env c) :
    ((∃ e, Column.ofCsv env (.floating p) c.display = .error e) ↔
        env.Refuses (.floating p) c.size) ∧
      ∀ d, Column.ofCsv env (.floating p) c.display = .ok d →
        d.size = c.size ∧
          (∀ (i : Nat) (x : Binary p), c.words[i]? = some x →
            (x.isNaN = true → d.missingAt i = .ok true) ∧
              (x.isNaN = false → (d.words[i]? = some x ↔ ¬ x.IsLost))) ∧
          (AnyColumn.sameAs ⟨d⟩ ⟨c⟩ = true ↔ ∀ x ∈ c.words, ¬ Binary.IsLost x) := by
  have formed := h.wellFormed
  have sizes := formed.length_words
  have few := formed.length_words_le
  have shown := items_floating_display (c := c)
  have count :
      (c.words.map fun x => Word.ofText (.floating p) (Binary.text x)).length = c.size := by
    simp [sizes]
  refine ⟨by rw [ofCsv_eq_error_iff shown (by omega), count], fun d made => ?_⟩
  have after := (Reachable.ofCsv _ made).wellFormed
  have words : d.words = c.words.map Binary.readBack := by
    rw [eq_of_ofCsv shown (by omega) made, taking, words_holding, List.map_map]
    rfl
  have same : d.size = c.size := by rw [← after.length_words, words, List.length_map, sizes]
  refine ⟨same, fun i x here => ?_, sameAs_iff.trans (alike_readBack_iff formed after words)⟩
  have there : d.words[i]? = some x.readBack := by
    rw [words, List.getElem?_map, here]
    rfl
  refine ⟨fun nan => ?_, fun number => ?_⟩
  · rw [missingAt_eq_true_iff after]
    exact ⟨after.raised rfl, _, there, Binary.isNaN_readBack nan⟩
  · rw [there, Option.some_inj, Binary.readBack_eq_iff number]

/-- Not a number with a payload, zero of negative sign, the least subnormal and infinity. -/
theorem doubles_of_display :
    let doubles : Column .double := ofSlots #[0x7FF0000000000001#64, 0x8000000000000000#64, 1#64,
      0x7FF0000000000000#64] 4
    doubles.display = "NaN, -0.0, 5e-324, Infinity" ∧
      ∃ d, Column.ofCsv {} .double doubles.display = .ok d ∧
        AnyColumn.sameAs ⟨d⟩ ⟨doubles⟩ = true ∧ d.missingAt 0 = .ok true ∧
        d.words[2]? = some (1#64 : Binary .double) := by
  intro doubles
  have reached : Reachable {} doubles := .ofWords
    [0x7FF0000000000001#64, 0x8000000000000000#64, 1#64, 0x7FF0000000000000#64] rfl
  obtain ⟨fails, reads⟩ := Reachable.reads_display_iff reached
  obtain ⟨d, made⟩ := Environment.exists_eq_ok fails.mp
  obtain ⟨-, elements, equal⟩ := reads d made
  have least := (elements 2 (1#64) rfl).2 (by decide)
  have kept (x : Binary .double) : ¬ x.IsLost := fun lost => by cases lost.1
  exact ⟨by decide +kernel, d, made, equal.mpr fun x _ => kept x, (elements 0 _ rfl).1 (by decide),
    least.mpr (kept _)⟩

/-- A single whose digits are read as a double halfway to the next single, and the largest one. -/
theorem singles_off_display :
    let singles : Column .float := ofSlots #[0x15AE43FD#32, 0x7F7FFFFF#32] 2
    singles.display = "7.038531e-26, 3.4028235e38" ∧
      ∃ d, Column.ofCsv {} .float singles.display = .ok d ∧
        d.words = [0x15AE43FE#32, 0x7FC00000#32] ∧ d.missingAt 1 = .ok true ∧
        AnyColumn.sameAs ⟨d⟩ ⟨singles⟩ = false := by
  intro singles
  have shown : singles.display = "7.038531e-26, 3.4028235e38" := by decide +kernel
  have items : (Text.splitCsv "7.038531e-26, 3.4028235e38").map (Word.ofText .float) =
      [some (Binary.ofParts false 0x15AE43FE), none] := by
    decide +kernel
  rw [← shown] at items
  refine ⟨shown, _, ofCsv_eq items (by decide), ?_, ?_, ?_⟩
  · rfl
  · rfl
  · decide +kernel

end Column

end Columnar

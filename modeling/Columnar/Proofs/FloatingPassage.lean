import Columnar.Proofs.RoundedDoubles
import Columnar.Proofs.WholeNumbers

/-!
# Passage through floating kinds

A format with more fraction bits than a kind has bits has every integer of that kind, and a double
has the value of every single. So a column of such a kind that is converted to the format and back
equals itself. What is missing is a NaN on the way, which no kind has a word for.

## Main definitions

* `Precision.encompasses`: the kinds whose values a format has.
* `Word.Passes`: a word becomes a floating number from which it is recovered.

## Main statements

* `Column.Reachable.passes_exactly`: a column comes back equal to itself.
-/

namespace Columnar

variable {k : Kind} {p : Precision} {env : Environment}

/-- The other kinds of which a format has every value. -/
def Precision.encompasses : Precision → List Kind
  | .single => [.byte, .ubyte, .short, .ushort, .char]
  | .double => [.byte, .ubyte, .short, .ushort, .int, .uint, .char, .float]

namespace Binary

variable {v : Int}

/-! ## Integers as floating numbers -/

/-- An integer with no more bits than a significand is a finite value of the format. -/
theorem ofInt_eq_of_few (few : v.natAbs < 2 * 2 ^ p.fracBits) :
    ∃ m < p.infinity, p.units m = v.natAbs * 2 ^ p.unitExp ∧
      (ofInt v : Binary p) = ofParts (decide (v < 0)) m := by
  obtain ⟨m, value, bound⟩ := Precision.exists_units_eq few p.unitExp
  have top : (p.unitExp + 2) * 2 ^ p.fracBits ≤ p.infinity := by cases p <;> decide
  refine ⟨m, by omega, value, ?_⟩
  rw [ofInt_eq_ofParts, ← value, Precision.roundUnits_units (by omega)]

theorem rational_ofInt (few : v.natAbs < 2 * 2 ^ p.fracBits) :
    (ofInt v : Binary p).isFinite = true ∧ (ofInt v : Binary p).rational = v := by
  obtain ⟨m, finite, value, same⟩ := ofInt_eq_of_few few
  have top := infinity_lt_signWeight p
  have scaled : (ofInt v : Binary p).scaled = v * 2 ^ p.unitExp := by
    have magnitude : (p.units m : ℤ) = v.natAbs * 2 ^ p.unitExp := by exact_mod_cast value
    rw [same, Binary.scaled, isNegative_ofParts (by omega), magnitude_ofParts (by omega),
      magnitude]
    by_cases negative : v < 0
    · rw [decide_eq_true negative, if_pos rfl, ← Int.neg_mul]
      congr 1
      omega
    · rw [decide_eq_false negative, if_neg (by decide)]
      congr 1
      omega
  constructor
  · rw [same, isFinite_ofParts (by omega)]
    exact decide_eq_true finite
  · have power : (2 : ℚ) ^ p.unitExp ≠ 0 := pow_ne_zero _ (by norm_num)
    rw [rational, scaled]
    push_cast
    exact mul_div_cancel_right₀ _ power

/-- Such an integer is what its floating number is rounded to. -/
theorem nearestInteger_ofInt (few : v.natAbs < 2 ^ p.fracBits) :
    (ofInt v : Binary p).nearestInteger = some v := by
  obtain ⟨finite, value⟩ := rational_ofInt (p := p) (v := v) (by omega)
  have below : 2 ^ p.fracBits ≤ 2 ^ 52 := Nat.pow_le_pow_right (by decide) (by cases p <;> decide)
  have quiet : ¬ Overshoots (v : ℚ) := by
    rintro (half | ⟨-, -, many, -⟩)
    · -- The last number below one half is no integer.
      have scaled : (v : ℚ) * 2 ^ 54 = 2 ^ 53 - 1 := by
        rw [half]
        norm_num
      have whole : v * 2 ^ 54 = 2 ^ 53 - 1 := by exact_mod_cast scaled
      omega
    · rw [Rat.num_intCast] at many
      omega
  have floor : ⌊(v : ℚ) + 1 / 2⌋ = v := by
    rw [Int.floor_eq_iff]
    constructor <;> norm_num
  rw [nearestInteger, finite, if_pos rfl, value, floor, if_neg quiet, Int.add_zero]

end Binary

namespace Word

/-! ## Words that pass -/

/-- A word becomes a floating number, from which the same word is recovered. -/
def Passes (p : Precision) (w : Word k) : Prop :=
  ∃ x : Binary p, x.isNaN = false ∧ w.cross (.floating p) w.valueText = some x ∧
    cross (k := .floating p) k x (valueText (k := .floating p) x) = some w

/-- Kinds that meet a floating format meet through doubles. -/
theorem route_floating (listed : k ∈ p.encompasses) :
    k ≠ .floating p ∧ k.route (.floating p) = .floating ∧
      (Kind.floating p).route k = .floating := by
  have table : ∀ p ∈ [Precision.single, .double], ∀ k ∈ p.encompasses,
      k ≠ .floating p ∧ k.route (.floating p) = .floating ∧
        (Kind.floating p).route k = .floating := by decide
  exact table p (by cases p <;> decide) k listed

/-- A kind of whole numbers that a format encompasses has fewer bits than the fraction. -/
theorem natAbs_lt_of_encompassed (integral : k.IsIntegral) (listed : k ∈ p.encompasses) {v : Int}
    (inside : k.InRange v) : v.natAbs < 2 ^ p.fracBits := by
  have table : ∀ p ∈ [Precision.single, .double], ∀ k ∈ p.encompasses,
      k.isInteger = true ∨ k = .char → -2 ^ p.fracBits < k.least ∧ k.last < 2 ^ p.fracBits := by
    decide
  obtain ⟨lower, upper⟩ := table p (by cases p <;> decide) k listed integral
  obtain ⟨least, last⟩ := integral.inRange_iff.mp inside
  have magnitude : (v.natAbs : ℤ) < 2 ^ p.fracBits := by omega
  exact_mod_cast magnitude

theorem passes_of_integral (integral : k.IsIntegral) (listed : k ∈ p.encompasses) (w : Word k) :
    w.Passes p := by
  obtain ⟨different, there, back⟩ := route_floating listed
  obtain ⟨v, value, inside⟩ := integral.exists_toInt w
  have few := natAbs_lt_of_encompassed integral listed inside
  have narrow : v.natAbs < 2 ^ 53 :=
    Nat.lt_trans few (Nat.pow_lt_pow_right (by decide) (by cases p <;> decide))
  have once : Binary.ofDouble p (Binary.ofInt v) = some (Binary.ofInt v) :=
    ofDouble_ofInt fun _ => ⟨by omega, Binary.convert_ofInt narrow⟩
  refine ⟨Binary.ofInt v, Binary.isNaN_ofInt p v, ?_, ?_⟩
  · rw [cross_of_ne different, there, integral.toDouble_eq value]
    exact once
  · rw [cross_of_ne different.symm, back]
    change ofDouble k (Binary.toDouble (Binary.ofInt v : Binary p)) = some w
    rw [ofDouble_eq integral, Binary.nearestInteger_toDouble, Binary.nearestInteger_ofInt few,
      ← value]
    exact integral.ofInt_toInt w

/-- A single is a double of the same value and is recovered from it bit for bit. -/
theorem passes_of_single {w : Word .float} (number : Binary.isNaN w = false) :
    w.Passes .double := by
  have wide := Binary.isNaN_toDouble number
  refine ⟨Binary.toDouble w, wide, ?_, ?_⟩
  · exact Binary.ofDouble_toDouble (p := .double) wide
  · exact Binary.ofDouble_toDouble (p := .single) number

theorem passes_of_encompassed (listed : k ∈ p.encompasses) {w : Word k}
    (present : k.missingFixed = true → w.isSentinel = false) : w.Passes p := by
  cases k with
  | signed b => exact passes_of_integral (.inl rfl) listed w
  | unsigned b => exact passes_of_integral (.inl rfl) listed w
  | char => exact passes_of_integral (.inr rfl) listed w
  | string => cases p <;> exact absurd listed (by decide)
  | floating q =>
    obtain ⟨rfl, rfl⟩ : q = .single ∧ p = .double := by
      cases p <;> cases q <;> first | exact ⟨rfl, rfl⟩ | exact absurd listed (by decide)
    exact passes_of_single (present rfl)

end Word

namespace Column

variable {c d : Column k} {w : Word k}

/-! ## Columns that pass -/

/-- An element, if it is not missing. -/
def wordOf (c : Column k) (w : Word k) : Option (Word k) :=
  if c.readsMissing w then none else some w

/-- Storing the present elements of a column and sentinels for the others yields an equal one. -/
theorem alike_taking_wordOf (hc : c.WellFormed) (hd : d.WellFormed)
    (made : d = taking (c.words.map c.wordOf)) : d.Alike c := by
  have words : d.words = c.words.map fun w => stored (c.wordOf w) := by
    rw [made, taking, words_holding, List.map_map]
    rfl
  have raised : d.flag = true ↔ k.missingFixed = true ∨ ∃ w ∈ c.words, c.readsMissing w = true := by
    rw [made, taking, flag_holding, Bool.or_eq_true, List.any_map, List.any_eq_true]
    simp [wordOf]
  refine ⟨by rw [← hd.length_words, ← hc.length_words, words, List.length_map],
    fun i a b there here => ?_⟩
  rw [words, List.getElem?_map, here] at there
  obtain rfl : stored (c.wordOf b) = a := Option.some.inj there
  have listed := List.mem_of_getElem? here
  rw [compareSeen_eq_iff]
  cases missing : c.readsMissing b with
  | true =>
    have up : d.flag = true := raised.mpr (.inr ⟨b, listed, missing⟩)
    have sentinel : b.isSentinel = true := (Bool.and_eq_true_iff.mp missing).2
    have lost : stored (c.wordOf b) = Word.sentinel k := by rw [wordOf, if_pos missing]; rfl
    rw [lost]
    refine ⟨Word.compare_eq_of_isSentinel Word.isSentinel_sentinel sentinel, ?_⟩
    rw [readsMissing, up, Bool.true_and]
    exact Word.isSentinel_sentinel
  | false =>
    have kept : stored (c.wordOf b) = b := by rw [wordOf, missing]; rfl
    rw [kept]
    refine ⟨Std.ReflCmp.compare_self, Bool.eq_false_iff.mpr fun reads => ?_⟩
    -- A sentinel is present only in a column without missing elements, so no flag went up.
    obtain ⟨up, sentinel⟩ := Bool.and_eq_true_iff.mp reads
    obtain fixed | ⟨u, held, reads⟩ := raised.mp up
    · cases (isSentinel_eq_false_of_readsMissing hc missing fixed).symm.trans sentinel
    · have down : c.flag = false := by
        rw [readsMissing, sentinel, Bool.and_true] at missing
        exact missing
      rw [readsMissing, down] at reads
      cases reads

section

variable (formed : c.WellFormed) (listed : k ∈ p.encompasses)
include formed listed

/-- An element that is not missing passes to the floating kind and back. -/
theorem passes_of_readsMissing (held : c.readsMissing w = false) : w.Passes p :=
  Word.passes_of_encompassed listed fun fixed =>
    isSentinel_eq_false_of_readsMissing formed held fixed

/-- A missing element becomes a NaN and any other one a number, which is converted to what the
element was. -/
theorem convertWord_passed (d : Column (.floating p)) (raised : d.flag = true) (w : Word k) :
    d.readsMissing (stored (c.convertWord (.floating p) w)) = c.readsMissing w ∧
      d.convertWord k (stored (c.convertWord (.floating p) w)) = c.wordOf w := by
  obtain ⟨-, there, back⟩ := Word.route_floating listed
  cases missing : c.readsMissing w with
  | true =>
    have lost : c.convertWord (.floating p) w = none := by
      rw [convertWord, if_pos missing, Word.crossMissing, there]
      rfl
    have reads : d.readsMissing (Word.sentinel (.floating p)) = true := by
      rw [readsMissing, raised, Bool.true_and]
      exact Word.isSentinel_sentinel
    rw [lost, wordOf, if_pos missing]
    refine ⟨reads, ?_⟩
    rw [stored, Option.getD_none, convertWord, if_pos reads, Word.crossMissing, back]
    rfl
  | false =>
    obtain ⟨x, number, crossed, recovered⟩ := passes_of_readsMissing formed listed missing
    have kept : c.convertWord (.floating p) w = some x := by
      rw [convertWord, missing]
      exact crossed
    have reads : d.readsMissing (k := .floating p) x = false := readsMissing_eq_false number
    rw [kept, wordOf, missing]
    refine ⟨reads, ?_⟩
    rw [stored, Option.getD_some, convertWord, reads]
    exact recovered

end

/-- Columns with missing elements at the same places, whatever their kinds. -/
theorem missingAt_congr {l : Kind} {e : Column l} (fe : e.WellFormed) (fc : c.WellFormed)
    (same : e.words.map e.readsMissing = c.words.map c.readsMissing) (i : Nat) (missing : Bool) :
    e.missingAt i = .ok missing ↔ c.missingAt i = .ok missing := by
  have entry {k : Kind} {c : Column k} (formed : c.WellFormed) :
      c.missingAt i = .ok missing ↔ (c.words.map c.readsMissing)[i]? = some missing := by
    rw [missingAt_eq_ok_iff formed, List.getElem?_map, Option.map_eq_some_iff]
  rw [entry fe, entry fc, same]

/-- A column of a kind that a floating format encompasses is converted to that format and back
without loss. Where memory does not forbid it, the column on the way has as many elements, of which
the same ones are missing, and the one that comes back equals the first. -/
theorem Reachable.passes_exactly {x : AnyColumn} (h : Reachable env x.column)
    (listed : x.kind ∈ p.encompasses) :
    ((∃ e, x.convertTo env (.floating p) = .error e) ↔
        env.Refuses (.floating p) x.column.size) ∧
      ∀ y, x.convertTo env (.floating p) = .ok y →
        y.kind = .floating p ∧ y.column.size = x.column.size ∧
          (∀ i missing, y.column.missingAt i = .ok missing ↔ x.column.missingAt i = .ok missing) ∧
          ((∃ e, y.convertTo env x.kind = .error e) ↔ env.Refuses x.kind x.column.size) ∧
          ∀ z, y.convertTo env x.kind = .ok z → z.sameAs x = true ∧
            ∀ i missing, z.column.missingAt i = .ok missing ↔
              x.column.missingAt i = .ok missing := by
  have formed := h.wellFormed
  obtain ⟨different, -, -⟩ := Word.route_floating listed
  refine ⟨by rw [AnyColumn.convertTo_eq_error_iff formed, and_iff_right different.symm],
    fun y made => ?_⟩
  have reached := h.convertTo (.floating p) made
  have passed := reached.wellFormed
  rw [AnyColumn.convertTo_of_ne different.symm formed] at made
  split at made
  case h_2 => cases made
  cases made
  have each := convertWord_passed formed listed (x.converted (.floating p)) rfl
  have words : (x.converted (.floating p)).words =
      x.column.words.map fun w => stored (x.column.convertWord (.floating p) w) := words_holding
  have size : (x.converted (.floating p)).size = x.column.size := by
    rw [← passed.length_words, ← formed.length_words]
    exact (congrArg List.length words).trans (List.length_map _)
  refine ⟨rfl, size, missingAt_congr passed formed ?_, ?_, fun z back => ?_⟩
  · rw [words, List.map_map]
    exact List.map_congr_left fun w _ => (each w).1
  · rw [AnyColumn.convertTo_eq_error_iff passed, and_iff_right different]
    exact iff_of_eq (congrArg _ size)
  · have restored := (reached.convertTo x.kind back).wellFormed
    rw [AnyColumn.convertTo_of_ne different passed] at back
    split at back
    case h_2 => cases back
    cases back
    have taken : AnyColumn.converted ⟨x.converted (.floating p)⟩ x.kind =
        taking (x.column.words.map x.column.wordOf) := by
      rw [AnyColumn.converted_eq_taking passed, words, List.map_map]
      exact congrArg taking (List.map_congr_left fun w _ => (each w).2)
    have alike := alike_taking_wordOf formed restored taken
    refine ⟨sameAs_iff.mpr alike, fun i missing => ?_⟩
    have same : (AnyColumn.converted ⟨x.converted (.floating p)⟩ x.kind).missingAt i =
        x.column.missingAt i :=
      alike.read_eq restored formed (fun missing _ => missing) (fun _ _ => rfl) i
    exact ⟨same.symm.trans, same.trans⟩

/-- A missing integer and the least one, by way of doubles. -/
theorem doubles_of_extreme_ints :
    let ints : Column .int :=
      Operation.raiseFlag.after {} (ofSlots #[BitVec.intMax 32, BitVec.intMin 32] 2)
    ∃ y z, AnyColumn.convertTo {} ⟨ints⟩ .double = .ok y ∧ y.convertTo {} .int = .ok z ∧
      y.column.missingAt 0 = .ok true ∧ z.column.missingAt 0 = .ok true ∧
      z.sameAs ⟨ints⟩ = true := by
  intro ints
  have reached : Reachable {} (AnyColumn.column ⟨ints⟩) :=
    .operated .raiseFlag (.ofWords [BitVec.intMax 32, BitVec.intMin 32] rfl)
  obtain ⟨fails, passes⟩ := Reachable.passes_exactly (p := .double) reached (by decide)
  obtain ⟨y, made⟩ := Environment.exists_eq_ok fails.mp
  obtain ⟨-, -, missing, fails, restored⟩ := passes y made
  obtain ⟨z, back⟩ := Environment.exists_eq_ok fails.mp
  obtain ⟨equal, still⟩ := restored z back
  exact ⟨y, z, made, back, (missing 0 true).mpr rfl, (still 0 true).mpr rfl, equal⟩

end Column

end Columnar

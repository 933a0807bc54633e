import Columnar.Proofs.Converting
import Columnar.Proofs.Equality
import Columnar.Proofs.Flag

/-!
# Promotion of integers

Where the kind needed for a kind and a partner is an integer kind, so is the kind itself. The needed
kind has every integer of it, and a sentinel that stands for none of them unless the two are the
same. So an element that is promoted keeps its integer and is no sentinel, unless it was missing; on
the way back every integer has its word, and a sentinel that is no missing element meets no missing
one.

`Column.integers` is what all columns on the way have in common. Integer columns of one kind that
hold the same integers are equal.
-/

namespace Columnar

variable {k l : Kind} {env : Environment}

namespace Kind

/-- Least integer of an integer kind. -/
def least : Kind → Int
  | .signed w => w.minSigned
  | _ => 0

/-- Greatest integer of an integer kind, for which the sentinel stands. -/
def greatest : Kind → Int
  | .signed w => w.maxSigned
  | .unsigned w => w.maxUnsigned
  | _ => 0

theorem inRange_iff {v : Int} (integer : k.isInteger = true) :
    k.InRange v ↔ k.least ≤ v ∧ v ≤ k.greatest := by
  cases k <;> first | rfl | cases integer

/-- The promotion table is symmetric. -/
theorem needed_comm (a b : Kind) : needed a b = needed b a := by
  have table : ∀ a ∈ all, ∀ b ∈ all, needed a b = needed b a := by decide
  exact table a a.mem_all b b.mem_all

/-- What the promotion table says about integers: `a` is an integer kind itself, its range is within
that of the needed kind, and it ends before it where the kinds differ. -/
theorem needed_of_isInteger {a b : Kind} (integer : (needed a b).isInteger = true) :
    a.isInteger = true ∧ (needed a b).least ≤ a.least ∧ a.greatest ≤ (needed a b).greatest ∧
      (needed a b ≠ a → a.greatest < (needed a b).greatest) := by
  have table : ∀ a ∈ all, ∀ b ∈ all, (needed a b).isInteger = true →
      a.isInteger = true ∧ (needed a b).least ≤ a.least ∧ a.greatest ≤ (needed a b).greatest ∧
        (needed a b ≠ a → a.greatest < (needed a b).greatest) := by decide
  exact table a a.mem_all b b.mem_all integer

/-- The needed kind has all integers of both kinds. -/
theorem inRange_needed {a b : Kind} {v : Int} (integer : (needed a b).isInteger = true)
    (inside : a.InRange v ∨ b.InRange v) : (needed a b).InRange v := by
  have first {a b : Kind} (integer : (needed a b).isInteger = true) (inside : a.InRange v) :
      (needed a b).InRange v := by
    obtain ⟨ha, lower, upper, -⟩ := needed_of_isInteger integer
    obtain ⟨least, greatest⟩ := (inRange_iff ha).mp inside
    exact (inRange_iff integer).mpr ⟨Int.le_trans lower least, Int.le_trans greatest upper⟩
  rcases inside with left | right
  · exact first integer left
  · rw [needed_comm] at integer ⊢
    exact first integer right

end Kind

namespace Word

section

variable (integer : k.isInteger = true)
include integer

/-- A word of an integer kind is an integer in the range of the kind. -/
theorem exists_toInt (w : Word k) : ∃ v, w.toInt = some v ∧ k.InRange v := by
  cases k, integer using Kind.integerCases with
  | signed b => exact ⟨_, rfl, b.toInt_bounds w⟩
  | unsigned b => exact ⟨_, rfl, b.toNat_bounds w⟩

theorem toInt_injective {w u : Word k} (h : w.toInt = u.toInt) : w = u := by
  cases k, integer using Kind.integerCases with
  | signed b => exact BitVec.toInt_inj.mp (Option.some.inj h)
  | unsigned b => exact BitVec.toNat_inj.mp (Int.ofNat.inj (Option.some.inj h))

/-- Every integer in the range of an integer kind has its word there. -/
theorem exists_ofInt {v : Int} (inside : k.InRange v) :
    ∃ w, ofInt k v = some w ∧ w.toInt = some v := by
  cases k, integer using Kind.integerCases with
  | signed b =>
    obtain ⟨lower, upper⟩ := inside
    refine ⟨BitVec.ofInt b.bits v, if_pos ⟨lower, upper⟩, congrArg some ?_⟩
    unfold IntWidth.minSigned at lower
    unfold IntWidth.maxSigned at upper
    exact BitVec.toInt_ofInt_eq_self b.bits_pos lower (by omega)
  | unsigned b =>
    obtain ⟨lower, upper⟩ := inside
    refine ⟨BitVec.ofInt b.bits v, if_pos ⟨lower, upper⟩, congrArg some ?_⟩
    unfold IntWidth.maxUnsigned at upper
    have small : v % (2 ^ b.bits : Nat) = v := Int.emod_eq_of_lt lower (by push_cast; omega)
    rw [BitVec.toNat_ofInt, small, Int.toNat_of_nonneg lower]

theorem ofInt_toInt (w : Word k) : w.toInt.bind (ofInt k) = some w := by
  obtain ⟨v, value, inside⟩ := exists_toInt integer w
  obtain ⟨u, word, same⟩ := exists_ofInt integer inside
  rw [value, Option.bind_some, word, toInt_injective integer (same.trans value.symm)]

/-- Words of an integer kind are ordered like their integers. -/
theorem compare_eq_compare {w u : Word k} {m n : Int} (left : w.toInt = some m)
    (right : u.toInt = some n) : w.compare u = Ord.compare m n := by
  cases k, integer using Kind.integerCases with
  | signed b =>
    cases left
    cases right
    rfl
  | unsigned b =>
    cases left
    cases right
    change Ord.compare (BitVec.toNat w) (BitVec.toNat u) = _
    rw [Nat.compare_eq_ite_lt, Int.compare_eq_ite_lt]
    simp only [Int.ofNat_lt]

theorem toInt_sentinel : (sentinel k).toInt = some k.greatest := by
  cases k, integer using Kind.integerCases with
  | signed b => cases b <;> decide
  | unsigned b => cases b <;> decide

theorem isSentinel_iff_toInt {w : Word k} : w.isSentinel = true ↔ w.toInt = some k.greatest := by
  have only : w.isSentinel = true ↔ w = sentinel k := by
    cases k <;> first | exact beq_iff_eq | cases integer
  rw [only, ← toInt_sentinel integer]
  exact ⟨congrArg toInt, toInt_injective integer⟩

end

end Word

namespace Column

variable {c : Column k} {d : Column l} {w : Word k} {i : Nat}

/-- The order of integers of which some are missing, which come last. -/
def compareIntegers : Option Int → Option Int → Ordering :=
  lastly Option.isNone (compareOn (·.getD 0))

instance : Std.TransCmp compareIntegers :=
  inferInstanceAs (Std.TransCmp (lastly Option.isNone (compareOn fun v : Option Int => v.getD 0)))

/-- The elements as integers, with nothing for a missing one. -/
def integers (c : Column k) : List (Option Int) := c.words.map c.integerOf

section

variable (hk : k.isInteger = true)
include hk

theorem integerOf_eq_none_iff : c.integerOf w = none ↔ c.readsMissing w = true := by
  obtain ⟨v, value, -⟩ := w.exists_toInt hk
  unfold integerOf
  split <;> simp_all

/-- The greatest integer and missing elements do not occur together. -/
theorem none_not_mem_integers (held : some k.greatest ∈ c.integers) : none ∉ c.integers := by
  intro lost
  obtain ⟨w, -, value⟩ := List.mem_map.mp held
  obtain ⟨u, -, missing⟩ := List.mem_map.mp lost
  obtain ⟨raised, -⟩ := Bool.and_eq_true_iff.mp ((integerOf_eq_none_iff hk).mp missing)
  unfold integerOf at value
  split at value
  case isTrue => cases value
  case isFalse present =>
    have sentinel := (Word.isSentinel_iff_toInt hk).mpr value
    exact present (by rw [readsMissing, raised, sentinel]; rfl)

theorem inRange_of_mem_integers {v : Int} (held : some v ∈ c.integers) : k.InRange v := by
  obtain ⟨w, -, value⟩ := List.mem_map.mp held
  obtain ⟨n, integer, inside⟩ := w.exists_toInt hk
  unfold integerOf at value
  split at value
  case isTrue => cases value
  case isFalse =>
    cases integer.symm.trans value
    exact inside

/-! ## Columns of the same integers -/

variable (hl : l.isInteger = true)
include hl

/-- Words of integer kinds compare as their integers do, in whatever kinds. -/
theorem comparePresent_eq_compare {u : Word l} {m n : Int} (left : w.toInt = some m)
    (right : u.toInt = some n) : comparePresent w u = Ord.compare m n := by
  unfold comparePresent
  split
  case isTrue kinds =>
    subst kinds
    exact Word.compare_eq_compare hk left right
  case isFalse =>
    have plain (a : Kind) (integer : a.isInteger = true) :
        a.isText = false ∧ a.isFloating = false := by
      cases a <;> first | exact ⟨rfl, rfl⟩ | cases integer
    simp [Word.crossCompare, plain k hk, plain l hl, left, right, Word.compareInt?]

/-- Elements of integer columns compare as their integers do, the missing ones last. -/
theorem orderPresent_eq_compareIntegers {u : Word l} :
    orderPresent (c.readsMissing w) (d.readsMissing u) (comparePresent w u) =
      compareIntegers (c.integerOf w) (d.integerOf u) := by
  obtain ⟨m, left, -⟩ := w.exists_toInt hk
  obtain ⟨n, right, -⟩ := u.exists_toInt hl
  rw [comparePresent_eq_compare hk hl left right, integerOf, integerOf, left, right]
  cases c.readsMissing w <;> cases d.readsMissing u <;> rfl

end

/-- What two columns show at an index, if they hold the same integer there or both miss it. -/
structure SameIntegerAt (c : Column k) (d : Column l) (i : Nat) : Prop where
  integer : d.integerAt i = c.integerAt i
  missing : d.missingAt i = c.missingAt i
  compares : c.compareAt i ⟨d⟩ i = .ok .eq
  compares_back : d.compareAt i ⟨c⟩ i = .ok .eq

section

variable (hk : k.isInteger = true) (hl : l.isInteger = true) (hc : c.WellFormed)
  (hd : d.WellFormed) (same : c.integers = d.integers)
include hk hl hc hd same

omit hk hl in
theorem size_eq_of_integers : c.size = d.size := by
  have lengths := congrArg List.length same
  rwa [integers, integers, List.length_map, List.length_map, hc.length_words,
    hd.length_words] at lengths

theorem sameIntegerAt_of_integers (inside : i < c.size) : c.SameIntegerAt d i := by
  have elements := hc.length_words
  have others := hd.length_words
  have sizes := size_eq_of_integers hc hd same
  have left : c.words[i]? = some c.words[i] := List.getElem?_eq_getElem (by omega)
  have right : d.words[i]? = some d.words[i] := List.getElem?_eq_getElem (by omega)
  have here : c.integerOf c.words[i] = d.integerOf d.words[i] := by
    have entries := congrArg (·[i]?) same
    simpa [integers, left, right] using entries
  have reads := (wordAt_eq_ok_iff hc).mpr left
  have readsOther := (wordAt_eq_ok_iff hd).mpr right
  constructor
  · rw [integerAt, integerAt, reads, readsOther]
    exact congrArg Except.ok here.symm
  · have missing : d.readsMissing d.words[i] = c.readsMissing c.words[i] := by
      rw [Bool.eq_iff_iff, ← integerOf_eq_none_iff hk, ← integerOf_eq_none_iff hl, here]
    rw [missingAt, missingAt, reads, readsOther]
    exact congrArg Except.ok missing
  · rw [compareAt, reads, readsOther]
    refine congrArg Except.ok ?_
    rw [orderPresent_eq_compareIntegers hk hl, here]
    exact Std.ReflCmp.compare_self
  · rw [compareAt, reads, readsOther]
    refine congrArg Except.ok ?_
    rw [orderPresent_eq_compareIntegers hl hk, here]
    exact Std.ReflCmp.compare_self

end

/-- Within an integer kind, columns that hold the same integers are equal. -/
theorem alike_of_integers {d : Column k} (hk : k.isInteger = true) (hc : c.WellFormed)
    (hd : d.WellFormed) (same : c.integers = d.integers) : c.Alike d :=
  (alike_iff_compareAt hc hd).mpr
    ⟨size_eq_of_integers hc hd same,
      fun _ inside => (sameIntegerAt_of_integers hk hk hc hd same inside).compares⟩

/-! ## Conversion -/

section

variable (hk : k.isInteger = true) {vs : List (Option Int)} (fits : ∀ v, some v ∈ vs → k.InRange v)
include hk fits

/-- Where integers of a kind are stored, the flag goes up for those that are missing. -/
theorem flag_taking_iff :
    (taking (vs.map (·.bind (Word.ofInt k)))).flag = true ↔ none ∈ vs := by
  have lost (v : Option Int) (listed : v ∈ vs) :
      (v.bind (Word.ofInt k)).isNone = true ↔ v = none := by
    cases v with
    | none => simp
    | some v =>
      obtain ⟨u, word, -⟩ := Word.exists_ofInt hk (fits v listed)
      simp [word]
  have lowered : k.missingFixed = false := by simp [Kind.missingFixed, hk]
  rw [taking, flag_holding, lowered, Bool.false_or, List.any_map, List.any_eq_true]
  constructor
  · rintro ⟨v, listed, absent⟩
    exact (lost v listed).mp absent ▸ listed
  · intro listed
    exact ⟨none, listed, rfl⟩

/-- A column of stored integers holds them, if the kind does not need the greatest one for missing
elements. -/
theorem integers_taking (plain : some k.greatest ∈ vs → none ∉ vs) :
    (taking (vs.map (·.bind (Word.ofInt k)))).integers = vs := by
  have raised := flag_taking_iff hk fits
  generalize made : taking (vs.map (·.bind (Word.ofInt k))) = d at raised ⊢
  have words : d.words = vs.map fun v => stored (v.bind (Word.ofInt k)) := by
    rw [← made, taking, words_holding, List.map_map]
    rfl
  rw [integers, words, List.map_map]
  refine (List.map_congr_left fun v listed => ?_).trans (List.map_id vs)
  rw [Function.comp_apply]
  cases v with
  | none =>
    refine (integerOf_eq_none_iff hk).mpr ?_
    rw [readsMissing, raised.mpr listed]
    exact Word.isSentinel_sentinel
  | some v =>
    obtain ⟨u, word, integer⟩ := Word.exists_ofInt hk (fits v listed)
    have present : d.readsMissing u = false := by
      refine Bool.eq_false_iff.mpr fun missing => ?_
      obtain ⟨up, sentinel⟩ := Bool.and_eq_true_iff.mp missing
      have greatest := (Word.isSentinel_iff_toInt hk).mp sentinel
      cases integer.symm.trans greatest
      exact plain listed (raised.mp up)
    rw [Option.bind_some, word, stored, Option.getD_some, integerOf, present]
    exact integer

end

/-- An element crosses to another integer kind as the integer that it is. -/
theorem convertWord_eq (hk : k.isInteger = true) (hl : l.isInteger = true) (different : k ≠ l) :
    c.convertWord l w = (c.integerOf w).bind (Word.ofInt l) := by
  have route : k.route l = .integer := by
    rw [Kind.route_to_integer hl different]
    cases k <;> first | rfl | cases hk
  unfold convertWord integerOf
  split
  · simp [Word.crossMissing, route]
  · simp [Word.cross, different, route]

end Column

namespace AnyColumn

variable {x y : AnyColumn} {t : Kind}

/-- What an integer column is converted to are its integers, stored in the other kind. -/
theorem converted_eq (hx : x.kind.isInteger = true) (ht : t.isInteger = true)
    (different : t ≠ x.kind) (formed : x.column.WellFormed) :
    x.converted t = Column.taking (x.column.integers.map (·.bind (Word.ofInt t))) := by
  have words : x.column.words.map (x.column.convertWord t) =
      x.column.integers.map (·.bind (Word.ofInt t)) := by
    rw [Column.integers, List.map_map]
    exact List.map_congr_left fun w _ => Column.convertWord_eq hx ht different.symm
  rw [converted_eq_taking formed, words]

/-- What a conversion between integer kinds yields. -/
theorem integers_of_convertTo (hx : x.kind.isInteger = true) (ht : t.isInteger = true)
    (fits : ∀ v, some v ∈ x.column.integers → t.InRange v)
    (plain : t ≠ x.kind → some t.greatest ∈ x.column.integers → none ∉ x.column.integers)
    (formed : x.column.WellFormed) (made : x.convertTo env t = .ok y) :
    y.kind = t ∧ y.column.integers = x.column.integers := by
  by_cases same : t = x.kind
  · subst same
    rw [convertTo_self] at made
    cases made
    exact ⟨rfl, rfl⟩
  · rw [convertTo_of_ne same formed] at made
    split at made
    · cases made
      refine ⟨rfl, ?_⟩
      rw [converted_eq hx ht same formed]
      exact Column.integers_taking ht fits (plain same)
    · cases made

theorem sameAs_of_integers (hx : x.kind.isInteger = true) (kinds : y.kind = x.kind)
    (fx : x.column.WellFormed) (fy : y.column.WellFormed)
    (same : y.column.integers = x.column.integers) : y.sameAs x = true := by
  obtain ⟨c⟩ := x
  obtain ⟨d⟩ := y
  cases kinds
  exact Column.sameAs_iff.mpr (Column.alike_of_integers hx fy fx same)

end AnyColumn

namespace Column

/-- Promotion to an integer kind, which is the same from either side and has all integers of both,
loses nothing. Where there is memory for it, the promoted column shows the same integers and the same
missing elements, which compare equal to the original ones, and converting it back yields a column
that equals the original one. -/
theorem Reachable.promotes_losslessly {x : AnyColumn} (h : Reachable env x.column) (b : Kind)
    (integer : (Kind.needed x.kind b).isInteger = true) :
    let t := Kind.needed x.kind b
    Kind.needed b x.kind = t ∧ (∀ v, x.kind.InRange v ∨ b.InRange v → t.InRange v) ∧
      ((∃ e, x.convertTo env t = .error e) ↔ t ≠ x.kind ∧ env.Refuses t x.column.size) ∧
      ∀ y, x.convertTo env t = .ok y →
        y.kind = t ∧ y.column.size = x.column.size ∧
          (∀ i < x.column.size, x.column.SameIntegerAt y.column i) ∧
          ((∃ e, y.convertTo env x.kind = .error e) ↔
            t ≠ x.kind ∧ env.Refuses x.kind x.column.size) ∧
          ∀ z, y.convertTo env x.kind = .ok z → z.sameAs x = true := by
  have table := Kind.needed_of_isInteger integer
  have wide {v : Int} (inside : x.kind.InRange v ∨ b.InRange v) :=
    Kind.inRange_needed integer inside
  refine ⟨Kind.needed_comm b x.kind, fun v => wide, ?_⟩
  generalize Kind.needed x.kind b = t at integer table wide
  obtain ⟨hx, -, -, apart⟩ := table
  have formed := h.wellFormed
  have held (v : Int) (listed : some v ∈ x.column.integers) : x.kind.InRange v :=
    inRange_of_mem_integers hx listed
  have within (v : Int) (listed : some v ∈ x.column.integers) : t.InRange v :=
    wide (.inl (held v listed))
  -- No element of `x` is the integer for which the sentinel of a wider kind stands.
  have free (wider : t ≠ x.kind) (listed : some t.greatest ∈ x.column.integers) :
      none ∉ x.column.integers := by
    have last := ((Kind.inRange_iff hx).mp (held _ listed)).2
    have beyond := apart wider
    omega
  refine ⟨AnyColumn.convertTo_eq_error_iff formed, fun y made => ?_⟩
  have after := (h.convertTo t made).wellFormed
  obtain ⟨rfl, same⟩ := AnyColumn.integers_of_convertTo hx integer within free formed made
  have sizes := size_eq_of_integers formed after same.symm
  refine ⟨rfl, sizes.symm, fun i => sameIntegerAt_of_integers hx integer formed after same.symm,
    ?_, fun z back => ?_⟩
  · rw [AnyColumn.convertTo_eq_error_iff after, ← sizes, ne_comm]
  · obtain ⟨kinds, restored⟩ := AnyColumn.integers_of_convertTo integer hx
      (fun v listed => held v (same ▸ listed))
      (fun _ listed => same ▸ none_not_mem_integers hx (same ▸ listed)) after back
    exact AnyColumn.sameAs_of_integers hx kinds formed
      ((h.convertTo y.kind made).convertTo x.kind back).wellFormed (restored.trans same)

/-- The greatest unsigned byte, which is a number while the flag is down, stays one among shorts. -/
theorem promotion_of_greatest_byte :
    let bytes : Column .ubyte := ofSlots #[255#8, 7#8] 2
    ∃ y z, AnyColumn.convertTo {} ⟨bytes⟩ (Kind.needed .ubyte .byte) = .ok y ∧
      y.convertTo {} .ubyte = .ok z ∧ y.column.integerAt 0 = .ok (some 255) ∧
      bytes.SameIntegerAt y.column 0 ∧ z.sameAs ⟨bytes⟩ = true := by
  intro bytes
  have reached : Reachable {} (AnyColumn.column ⟨bytes⟩) := .ofWords [255#8, 7#8] rfl
  obtain ⟨-, -, -, promoted⟩ := Reachable.promotes_losslessly reached .byte rfl
  obtain ⟨-, -, same, -, restored⟩ := promoted _ rfl
  exact ⟨_, _, rfl, rfl, rfl, same 0 (by decide), restored _ rfl⟩

end Column

end Columnar

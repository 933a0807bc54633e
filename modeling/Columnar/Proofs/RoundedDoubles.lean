import Columnar.Proofs.HalfUp
import Columnar.Proofs.StoredIntegers
import Columnar.Proofs.TextRoundTrips

/-!
# Doubles and singles in integer columns

A floating number that enters a column of integers or code units is rounded half up, whether it is
given or copied. What the kind lacks becomes its sentinel and raises the flag, and so do the
infinities and the NaNs.

The integer stored is the floor of the exact sum with one half but for the numbers that overshoot,
where it is the next one: the last double below one half becomes one, and an odd integer of 53 bits
the even one after it.

## Main statements

* `Column.Reachable.rounds_half_up`: what each way to store floating numbers does.
-/

namespace Columnar

variable {k : Kind} {p : Precision} {env : Environment}

theorem Kind.IsIntegral.ne_floating (integral : k.IsIntegral) : Kind.floating p ≠ k := by
  rintro rfl
  rcases integral with integer | same
  · cases integer
  · cases same

namespace Binary

/-! ## Singles and doubles of one value -/

theorem isFinite_toDouble (x : Binary p) : x.toDouble.isFinite = x.isFinite := by
  cases nan : x.isNaN with
  | true =>
    cases p with
    | single =>
      have infinite : x.isFinite = false := by
        have above : Precision.single.infinity < x.magnitude := of_decide_eq_true nan
        exact decide_eq_false (by omega)
      have same : x.toDouble = (Binary.nan : Binary .double) := if_pos nan
      rw [infinite, same]
      decide
    | double => rfl
  | false =>
    obtain ⟨negative, rfl | ⟨m, finite, rfl⟩⟩ := eq_ofParts nan
    · rw [toDouble_infinity, isFinite_ofParts (Nat.le_refl _), isFinite_ofParts (Nat.le_refl _)]
      simp
    · obtain ⟨n, bound, wide⟩ := exists_toDouble negative finite
      rw [wide, isFinite_ofParts (Nat.le_of_lt bound), isFinite_ofParts (Nat.le_of_lt finite)]
      simp [bound, finite]

theorem rational_toDouble {x : Binary p} (finite : x.isFinite = true) :
    x.toDouble.rational = x.rational := by
  cases p with
  | double => rfl
  | single =>
    have bound : x.magnitude < Precision.single.infinity := of_decide_eq_true finite
    have room := infinity_lt_signWeight .single
    have top := infinity_lt_signWeight .double
    obtain ⟨n, below, same⟩ := exists_wide bound
    have wide : x.toDouble = ofParts x.isNegative n := by
      have converted : (ofParts x.isNegative x.magnitude : Binary .single).convert =
          (ofParts x.isNegative n : Binary .double) :=
        convert_ofParts_eq bound (Nat.le_of_lt below) same
      rwa [ofParts_magnitude] at converted
    have scaled : x.scaled * 2 ^ Precision.double.unitExp =
        x.toDouble.scaled * 2 ^ Precision.single.unitExp := by
      have cast : (Precision.single.units x.magnitude * 2 ^ Precision.double.unitExp : ℤ) =
          Precision.double.units n * 2 ^ Precision.single.unitExp := by exact_mod_cast same
      rw [wide, Binary.scaled, Binary.scaled, isNegative_ofParts (by omega),
        magnitude_ofParts (by omega)]
      split_ifs
      · rw [Int.neg_mul, Int.neg_mul, cast]
      · exact cast
    have power (e : Nat) : (2 : ℚ) ^ e ≠ 0 := pow_ne_zero e (by norm_num)
    rw [rational, rational, div_eq_div_iff (power _) (power _)]
    exact_mod_cast scaled.symm

theorem nearestInteger_toDouble (x : Binary p) : x.toDouble.nearestInteger = x.nearestInteger := by
  unfold nearestInteger
  rw [isFinite_toDouble]
  cases finite : x.isFinite with
  | true => rw [rational_toDouble finite]
  | false => rfl

end Binary

namespace Word

variable {v : Option Int}

/-! ## Words of rounded numbers -/

theorem fitsWide_of_inRange (integral : k.IsIntegral) {n : Int} (inside : k.InRange n) :
    Binary.fitsWide n = true := by
  rcases integral with integer | rfl
  · exact Kind.fitsWide_of_inRange integer inside
  · obtain ⟨lower, upper⟩ := inside
    simp only [Binary.fitsWide, Bool.and_eq_true, decide_eq_true_eq]
    omega

/-- The bound of 128 bits is without effect: no kind has integers beyond. -/
theorem ofDouble_eq (integral : k.IsIntegral) (x : Binary .double) :
    ofDouble k x = x.nearestInteger.bind (ofInt k) := by
  have rounded : ofDouble k x = x.roundHalfUp.bind (ofInt k) := by
    rcases integral with integer | rfl
    · cases k <;> first | rfl | cases integer
    · rfl
  rw [rounded, Binary.roundHalfUp_eq]
  cases x.nearestInteger with
  | none => rfl
  | some n =>
    rw [Option.filter_some]
    split_ifs with wide
    · rfl
    · have lacks : k.Lacks (some n) := by
        rintro m ⟨⟩ inside
        exact wide (fitsWide_of_inRange integral inside)
      exact (Option.isNone_iff_eq_none.mp (isNone_ofInt_iff.mpr lacks)).symm

end Word

namespace Column

variable {c : Column k} {s : Column (.floating p)}

theorem convertWord_of_floating (integral : k.IsIntegral) (x : Word (.floating p)) :
    s.convertWord k x = (Binary.nearestInteger x).bind (Word.ofInt k) := by
  have different : Kind.floating p ≠ k := integral.ne_floating
  have route : (Kind.floating p).route k = .floating := by
    rw [Kind.route, if_neg different]
    rcases integral with integer | rfl
    · cases k <;> first | rfl | cases integer
    · rfl
  have crossed : x.cross k x.valueText = (Binary.nearestInteger x).bind (Word.ofInt k) := by
    rw [Word.cross_of_ne different, route, ← Binary.nearestInteger_toDouble]
    exact Word.ofDouble_eq integral _
  unfold convertWord
  split_ifs with missing
  · -- A missing floating number is a NaN, which has no integer.
    have nan : Binary.isNaN x = true := by
      rw [readsMissing, Bool.and_eq_true] at missing
      exact missing.2
    have infinite : Binary.isFinite x = false := by
      have above : p.infinity < Binary.magnitude x := of_decide_eq_true nan
      exact decide_eq_false (by omega)
    rw [Binary.nearestInteger, infinite, Word.crossMissing, route]
    rfl
  · exact crossed

/-! ## Storing rounded numbers -/

section

variable (formed : c.WellFormed) (integral : k.IsIntegral)
include formed integral

theorem addConverted_stores {v : Option Int} (room : c.HasRoom env 1) :
    ∃ d, (addConverted env (v.bind (Word.ofInt k))).run c = .ok () d ∧
      c.Stores d (c.words ++ ·) [v] :=
  (addConverted_takesIn formed integral v).stores room

theorem setConverted_stores {v : Option Int} {i : Nat} (inside : i < c.size) :
    ∃ d, (setConverted i (v.bind (Word.ofInt k))).run c = .ok () d ∧
      c.Stores d (fun ws => c.words.take i ++ ws ++ c.words.drop (i + 1)) [v] :=
  (setConverted_takesIn formed integral i v).stores inside

theorem setFrom_stores {i j : Nat} (inside : i < c.size) {x : Word (.floating p)}
    (here : s.wordAt j = .ok x) :
    ∃ d, (setFrom i ⟨s⟩ j).run c = .ok () d ∧
      c.Stores d (fun ws => c.words.take i ++ ws ++ c.words.drop (i + 1))
        [Binary.nearestInteger x] := by
  rw [run_setFrom_one formed here, convertWord_of_floating integral]
  exact setConverted_stores formed integral inside

variable (source : s.WellFormed)
include source

theorem addFrom_stores (start count : Nat) (inside : start + count ≤ s.size)
    (room : c.HasRoom env count) :
    ∃ d, (addFrom env ⟨s⟩ start count).run c = .ok () d ∧
      c.Stores d (c.words ++ ·) (((s.words.drop start).take count).map Binary.nearestInteger) :=
  (addFrom_takesIn formed integral source (convertWord_of_floating integral) start count).stores
    ⟨inside, room⟩

theorem append_stores (room : c.HasRoom env s.size) :
    ∃ d, (append env ⟨s⟩).run c = .ok () d ∧
      c.Stores d (c.words ++ ·) (s.words.map Binary.nearestInteger) :=
  (append_takesIn formed integral source (convertWord_of_floating integral)
    integral.ne_floating).stores room

end

/-- A floating number is stored as the integer nearest to it, half up, where the column has room for
it. -/
theorem Reachable.rounds_half_up (h : Reachable env c) (integral : k.IsIntegral) :
    (∀ x, c.HasRoom env 1 → ∃ d, (addDouble env x).run c = .ok () d ∧
      c.Stores d (c.words ++ ·) [x.nearestInteger]) ∧
    (∀ i x, i < c.size → ∃ d, (setDouble i x).run c = .ok () d ∧
      c.Stores d (fun ws => c.words.take i ++ ws ++ c.words.drop (i + 1)) [x.nearestInteger]) ∧
    ∀ {p : Precision} {s : Column (.floating p)}, Reachable env s →
      (c.HasRoom env s.size → ∃ d, (append env ⟨s⟩).run c = .ok () d ∧
        c.Stores d (c.words ++ ·) (s.words.map Binary.nearestInteger)) ∧
      (∀ start count, start + count ≤ s.size → c.HasRoom env count →
        ∃ d, (addFrom env ⟨s⟩ start count).run c = .ok () d ∧
          c.Stores d (c.words ++ ·)
            (((s.words.drop start).take count).map Binary.nearestInteger)) ∧
      ∀ i j x, i < c.size → s.wordAt j = .ok x → ∃ d, (setFrom i ⟨s⟩ j).run c = .ok () d ∧
        c.Stores d (fun ws => c.words.take i ++ ws ++ c.words.drop (i + 1))
          [Binary.nearestInteger x] := by
  have formed := h.wellFormed
  refine ⟨fun x room => ?_, fun i x inside => ?_, fun source => ⟨?_, ?_, ?_⟩⟩
  · rw [addDouble, Word.ofDouble_eq integral]
    exact addConverted_stores formed integral room
  · rw [setDouble, Word.ofDouble_eq integral]
    exact setConverted_stores formed integral inside
  · exact append_stores formed integral source.wellFormed
  · exact fun start count => addFrom_stores formed integral source.wellFormed start count
  · exact fun i j x inside here => setFrom_stores formed integral inside here

/-- One half is rounded up, and so is the single before it. -/
theorem ints_of_halves :
    let halves : Column .float := ofSlots #[0x3F000000#32, 0x3EFFFFFF#32, 0x7F800000#32] 3
    let ints : Column .int := empty {} .int
    ∃ d, (append {} ⟨halves⟩).run ints = .ok () d ∧
      ints.Stores d (ints.words ++ ·) [some 1, some 0, none] := by
  intro halves ints
  have target : Reachable {} ints := .empty .int rfl
  have source : Reachable {} halves := .ofWords [0x3F000000#32, 0x3EFFFFFF#32, 0x7F800000#32] rfl
  have rounded : halves.words.map Binary.nearestInteger = [some 1, some 0, none] := by
    decide +kernel
  have room : ints.HasRoom {} halves.size := .of_size_le (by decide)
  obtain ⟨d, done, stores⟩ := ((target.rounds_half_up (.inl rfl)).2.2 source).1 room
  rw [rounded] at stores
  exact ⟨d, done, stores⟩

/-- The last double below one half is stored as one, and an odd integer of 53 bits as the next
one. -/
theorem one_of_less_than_half :
    let below : Binary .double := 0x3FDFFFFFFFFFFFFF#64
    let odd : Binary .double := 0x4330000000000001#64
    (⌊below.rational + 1 / 2⌋ = 0 ∧
      (addDouble {} below).run (empty {} .byte) = .ok () (holding [1#8] 8 false)) ∧
    (odd.rational = 4503599627370497 ∧
      (addDouble {} odd).run (empty {} .long) =
        .ok () (holding [4503599627370498#64] 8 false)) := by
  intro below odd
  have small : 8 ≤ maxSize := by decide
  have added {k : Kind} (w : Word k) :
      (addConverted {} (some w)).run (holding [] 8 false) = .ok () (holding [w] 8 false) := by
    rw [run_addConverted (by simp) small, List.nil_append, enlarge_of_le (by simp) small]
    rfl
  have one : below.nearestInteger = some 1 := by decide +kernel
  have next : odd.nearestInteger = some 4503599627370498 := by decide +kernel
  refine ⟨⟨by decide +kernel, ?_⟩, by decide +kernel, ?_⟩
  · rw [addDouble, Word.ofDouble_eq (.inl rfl), one]
    exact added (k := .byte) 1#8
  · rw [addDouble, Word.ofDouble_eq (.inl rfl), next]
    exact added (k := .long) 4503599627370498#64

end Column

end Columnar

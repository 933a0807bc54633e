import Mathlib.Tactic.FieldSimp
import Mathlib.Tactic.Positivity
import Columnar.Binary.Text
import Columnar.Proofs.Decimals
import Columnar.Proofs.ShortestDigits

/-!
# Decimal texts of floating numbers

The text of a decimal, be it positional or with an exponent, is read as a decimal of the same value,
and such a text stands in a list of items as it is. What is read is rounded to the nearest double;
the bounds beyond which no power of ten is computed make no difference to that.

## Main statements

* `Decimal.exists_readScientific_text`: the text of a decimal denotes its value.
* `Numeral.Scientific.toBinary_eq`: a literal is rounded by its value alone.
* `Numeral.doubleOfText_text`: the text of a decimal is read as the double nearest to its value.
-/

namespace Columnar

namespace Numeral

variable {cs ds whole fraction rest : List Char}

/-! ## Strings of digits -/

theorem digitsValue_append (cs ds : List Char) :
    digitsValue 10 (cs ++ ds) = digitsValue 10 cs * 10 ^ ds.length + digitsValue 10 ds := by
  have split : appendDigits 10 0 (cs ++ ds) = appendDigits 10 (appendDigits 10 0 cs) ds :=
    List.foldl_append
  rw [digitsValue_eq, digitsValue_eq, digitsValue_eq, split, appendDigits_eq]

theorem digitsValue_toDigits (n : Nat) : digitsValue 10 (Nat.toDigits 10 n) = n := by
  have digits (c : Char) (held : c ∈ Nat.toDigits 10 n) : c.isDigit = true := isDigit_of_mem held
  rw [digitsValue_eq, appendDigits_eq_ofDigitChars digits, Nat.ofDigitChars_ten_toDigits]

theorem digitsValue_replicate_zero (n : Nat) : digitsValue 10 (List.replicate n '0') = 0 := by
  induction n with
  | zero => rw [digitsValue_eq, List.replicate_zero, appendDigits, List.foldl_nil]
  | succ n ih =>
    have zero : digitsValue 10 ['0'] = 0 := digitsValue_toDigits 0
    rw [List.replicate_succ', digitsValue_append, ih, zero, Nat.zero_mul]

/-- A text that consists of decimal digits. -/
def AllDigits (cs : List Char) : Prop := ∀ c ∈ cs, c.isDigit = true

theorem AllDigits.append (left : AllDigits cs) (right : AllDigits ds) : AllDigits (cs ++ ds) := by
  intro c held
  rcases List.mem_append.mp held with before | after
  · exact left c before
  · exact right c after

theorem allDigits_toDigits (n : Nat) : AllDigits (Nat.toDigits 10 n) := fun _ => isDigit_of_mem

theorem allDigits_replicate_zero (n : Nat) : AllDigits (List.replicate n '0') := by
  intro c held
  rw [List.eq_of_mem_replicate held]
  decide

/-- Digits end where there is another character. -/
theorem AllDigits.span (digits : AllDigits cs) (rest : List Char)
    (stop : ∀ c, rest.head? = some c → isDigitOf 10 c = false) :
    (cs ++ rest).takeWhile (isDigitOf 10) = cs ∧ (cs ++ rest).dropWhile (isDigitOf 10) = rest := by
  have all (c : Char) (held : c ∈ cs) : isDigitOf 10 c = true :=
    isDigitOf_of_isDigit (digits c held)
  have ends : rest.takeWhile (isDigitOf 10) = [] ∧ rest.dropWhile (isDigitOf 10) = rest := by
    cases rest with
    | nil => exact ⟨rfl, rfl⟩
    | cons c rest =>
      have other := stop c rfl
      rw [List.takeWhile_cons, List.dropWhile_cons, other]
      exact ⟨rfl, rfl⟩
  rw [List.takeWhile_append_of_pos all, List.dropWhile_append_of_pos all, ends.1, ends.2,
    List.append_nil]
  exact ⟨rfl, rfl⟩

/-! ## Decimal numbers -/

/-- An exponent is left out, or is a number behind its marker. -/
theorem readExponent_eq_some_iff {e : Int} : readExponent rest = some e ↔
    (rest = [] ∧ e = 0) ∨
      ∃ c tail, rest = c :: tail ∧ (c = 'e' ∨ c = 'E') ∧ readInt 10 tail = some e := by
  constructor
  · intro power
    unfold readExponent at power
    split at power
    · exact .inl ⟨rfl, (Option.some.inj power).symm⟩
    · exact .inr ⟨_, _, rfl, .inl rfl, power⟩
    · exact .inr ⟨_, _, rfl, .inr rfl, power⟩
    · cases power
  · rintro (⟨rfl, rfl⟩ | ⟨c, tail, rfl, rfl | rfl, power⟩)
    · rfl
    · exact power
    · exact power

/-- The digits before an exponent end there, and so does a number without a point. -/
theorem stop_of_readExponent {e : Int} (power : readExponent rest = some e) :
    ∀ c, rest.head? = some c → isDigitOf 10 c = false ∧ c ≠ '.' := by
  intro c first
  rcases readExponent_eq_some_iff.mp power with ⟨rfl, -⟩ | ⟨c, tail, rfl, rfl | rfl, -⟩
  · cases first
  all_goals
    cases first
    decide

/-- Digits with a point and an exponent. -/
theorem readScientific_point {e : Int} (before : AllDigits whole) (after : AllDigits fraction)
    (some_digit : whole ++ fraction ≠ []) (power : readExponent rest = some e) :
    readScientific (whole ++ '.' :: (fraction ++ rest)) =
      some ⟨digitsValue 10 (whole ++ fraction), e - fraction.length⟩ := by
  obtain ⟨first, second⟩ := before.span ('.' :: (fraction ++ rest)) (by rintro c ⟨⟩; decide)
  obtain ⟨third, fourth⟩ := after.span rest fun c first => (stop_of_readExponent power c first).1
  have shown : (whole.isEmpty && fraction.isEmpty) = false := by simpa using some_digit
  simp only [readScientific, first, second, third, fourth, shown, power]
  rfl

/-- Digits with an exponent and no point. -/
theorem readScientific_whole {e : Int} (rest : List Char) (before : AllDigits whole)
    (some_digit : whole ≠ []) (power : readExponent rest = some e) :
    readScientific (whole ++ rest) = some ⟨digitsValue 10 whole, e⟩ := by
  obtain ⟨first, second⟩ := before.span rest fun c first => (stop_of_readExponent power c first).1
  have shown : whole.isEmpty = false := by simpa using some_digit
  rcases readExponent_eq_some_iff.mp power with ⟨rfl, rfl⟩ | ⟨c, tail, rfl, rfl | rfl, -⟩
  all_goals
    simp only [readScientific, first, second, shown]
    simp [power]

/-- The number that a literal stands for. -/
def Scientific.value (s : Scientific) : ℚ := s.digits * 10 ^ s.exponent

/-- Zeros at the end of the digits are made up for by the exponent. -/
theorem Scientific.value_eq {d : Decimal} {s : Scientific} (zeros : Nat)
    (digits : s.digits = d.digits * 10 ^ zeros) (exponent : s.exponent + zeros = d.exponent) :
    s.value = d.value := by
  rw [value, Decimal.value, digits, ← exponent, zpow_add₀ (by norm_num), zpow_natCast]
  push_cast
  ring

end Numeral

namespace Decimal

open Numeral

variable (d : Decimal) {whole fraction rest : List Char}

theorem toDigits_ne_nil : Nat.toDigits 10 d.digits ≠ [] := Nat.toDigits_ne_nil

theorem leading_add_one :
    d.leading + 1 = d.exponent + (Nat.toDigits 10 d.digits).length := by
  rw [leading]
  omega

variable {d} in
/-- Digits with a point that are those of a decimal, up to zeros at the end, denote its value. -/
theorem exists_readScientific_point {e : Int} (zeros : Nat) (rest : List Char)
    (before : AllDigits whole) (after : AllDigits fraction) (some_digit : whole ≠ [])
    (power : readExponent rest = some e)
    (digits : digitsValue 10 (whole ++ fraction) = d.digits * 10 ^ zeros)
    (exponent : e - fraction.length + zeros = d.exponent) :
    ∃ s, readScientific (whole ++ '.' :: (fraction ++ rest)) = some s ∧ s.value = d.value :=
  ⟨_, readScientific_point before after (by simp [some_digit]) power,
    Scientific.value_eq zeros digits exponent⟩

/-- Positional digits denote the value of the decimal. -/
theorem exists_readScientific_positional :
    ∃ s, readScientific d.positional = some s ∧ s.value = d.value := by
  have digits := allDigits_toDigits d.digits
  have shown := d.toDigits_ne_nil
  have place := d.leading_add_one
  have number := digitsValue_toDigits d.digits
  have zero : digitsValue 10 ['0'] = 0 := digitsValue_toDigits 0
  have single : AllDigits ['0'] := allDigits_toDigits 0
  unfold positional
  simp only
  generalize Nat.toDigits 10 d.digits = cs at digits shown place number ⊢
  split_ifs with low high
  · have places := allDigits_replicate_zero (-(d.leading + 1)).toNat
    have read := exists_readScientific_point (d := d) 0 [] single (places.append digits) (by simp)
      rfl
    rw [List.append_nil] at read
    apply read
    · rw [digitsValue_append, digitsValue_append, digitsValue_replicate_zero, zero, number,
        Nat.zero_mul, Nat.zero_mul, Nat.zero_add, Nat.zero_add, Nat.pow_zero, Nat.mul_one]
    · rw [List.length_append, List.length_replicate]
      omega
  · have zeros := allDigits_replicate_zero ((d.leading + 1).toNat - cs.length)
    apply exists_readScientific_point ((d.leading + 1).toNat - cs.length + 1) []
      (digits.append zeros) single (by simp [shown]) rfl
    · rw [digitsValue_append, digitsValue_append, digitsValue_replicate_zero, zero, number,
        List.length_replicate, List.length_singleton, Nat.add_zero, Nat.add_zero, Nat.mul_assoc,
        ← Nat.pow_add]
    · rw [List.length_singleton]
      omega
  · have before : AllDigits (cs.take (d.leading + 1).toNat) :=
      fun c held => digits c (List.take_subset _ _ held)
    have after : AllDigits (cs.drop (d.leading + 1).toNat) :=
      fun c held => digits c (List.drop_subset _ _ held)
    have some_digit : cs.take (d.leading + 1).toNat ≠ [] := by
      rw [Ne, List.take_eq_nil_iff, or_iff_left shown]
      omega
    rw [← List.append_nil (cs.drop _)]
    apply exists_readScientific_point 0 [] before after some_digit rfl
    · rw [List.take_append_drop, number, Nat.pow_zero, Nat.mul_one]
    · rw [List.length_drop]
      omega

/-- Digits with an exponent denote the value of the decimal. -/
theorem exists_readScientific_scientific :
    ∃ s, readScientific d.scientific = some s ∧ s.value = d.value := by
  have digits := allDigits_toDigits d.digits
  have shown := d.toDigits_ne_nil
  have place := d.leading_add_one
  have number := digitsValue_toDigits d.digits
  unfold scientific
  simp only
  generalize Nat.toDigits 10 d.digits = cs at digits shown place number ⊢
  have before : AllDigits (cs.take 1) := fun c held => digits c (List.take_subset _ _ held)
  have after : AllDigits (cs.drop 1) := fun c held => digits c (List.drop_subset _ _ held)
  have length : 0 < cs.length := List.length_pos_iff.mpr shown
  have some_digit : cs.take 1 ≠ [] := by simp [shown]
  split_ifs with single
  · rw [List.isEmpty_iff, List.drop_eq_nil_iff] at single
    rw [List.append_nil, List.take_of_length_le single]
    refine ⟨_, readScientific_whole ('e' :: (toString d.leading).toList) digits shown
      (readInt_toString d.leading), ?_⟩
    apply Scientific.value_eq 0
    · rw [number, Nat.pow_zero, Nat.mul_one]
    · simp only
      omega
  · rw [List.append_assoc, List.cons_append]
    apply exists_readScientific_point 0 ('e' :: (toString d.leading).toList) before after some_digit
      (readInt_toString d.leading)
    · rw [List.take_append_drop, number, Nat.pow_zero, Nat.mul_one]
    · rw [List.length_drop]
      omega

theorem exists_readScientific_text : ∃ s, readScientific d.text = some s ∧ s.value = d.value := by
  unfold text
  split_ifs
  · exact d.exists_readScientific_positional
  · exact d.exists_readScientific_scientific

theorem isDigit_or_mem_of_mem_text {c : Char} (held : c ∈ d.text) :
    c.isDigit = true ∨ c ∈ ['.', 'e', '-'] := by
  have digits (c : Char) (held : c ∈ Nat.toDigits 10 d.digits) : c.isDigit = true :=
    isDigit_of_mem held
  have zeros (n : Nat) (c : Char) (held : c ∈ List.replicate n '0') : c.isDigit = true :=
    allDigits_replicate_zero n c held
  have exponent (c : Char) (held : c ∈ (toString d.leading).toList) :
      c.isDigit = true ∨ c ∈ ['.', 'e', '-'] := by
    have digit : c ∈ Nat.toDigits 10 d.leading.natAbs → c.isDigit = true := isDigit_of_mem
    rw [toList_toString] at held
    split at held <;> grind
  have zero (c : Char) (same : c = '0') : c.isDigit = true := same ▸ by decide
  unfold text positional scientific at held
  simp only at held
  have part (n : Nat) (c : Char) : c ∈ (Nat.toDigits 10 d.digits).take n ∨
      c ∈ (Nat.toDigits 10 d.digits).drop n → c.isDigit = true := by
    rintro (held | held)
    · exact digits c (List.take_subset _ _ held)
    · exact digits c (List.drop_subset _ _ held)
  split_ifs at held
  all_goals
    simp only [List.mem_append, List.mem_cons, List.not_mem_nil] at held exponent ⊢
    grind

theorem isDigit_head_text {c : Char} (first : d.text.head? = some c) : c.isDigit = true := by
  have digits := allDigits_toDigits d.digits
  obtain ⟨b, cs, hcs⟩ := List.exists_cons_of_ne_nil d.toDigits_ne_nil
  have digit : b.isDigit = true := digits b (by simp [hcs])
  have zero (c : Char) (same : c = '0') : c.isDigit = true := same ▸ by decide
  unfold text positional scientific at first
  simp only [hcs] at first
  split_ifs at first <;> grind [List.head?_take]

end Decimal

namespace Numeral

/-! ## Rounding of literals -/

/-- The infinity stands for the next power of two behind the doubles. -/
theorem units_infinity {e : Nat} (top : e = 1024) :
    Precision.double.units Precision.double.infinity = 2 ^ e * 2 ^ Precision.double.unitExp := by
  obtain ⟨q, last⟩ : ∃ q, q = 2046 := ⟨_, rfl⟩
  have magnitude : Precision.double.infinity = (q + 1) * 2 ^ 52 + 0 := by rw [last]; rfl
  have value : Precision.double.units ((q + 1) * 2 ^ 52 + 0) = (2 ^ 52 + 0) * 2 ^ q :=
    Precision.units_normal (p := .double) (Nat.two_pow_pos 52)
  have exponent : e + Precision.double.unitExp = 52 + q := by rw [top, last]; rfl
  rw [magnitude, value, ← Nat.pow_add, exponent, Nat.pow_add, Nat.add_zero]

theorem two_pow_le_ten_pow {a b : Nat} (fewer : a ≤ 3 * b) : (2 : ℚ) ^ a ≤ 10 ^ b := by
  calc (2 : ℚ) ^ a ≤ 2 ^ (3 * b) := pow_le_pow_right₀ (by norm_num) fewer
    _ = 8 ^ b := by
      rw [pow_mul]
      norm_num
    _ ≤ 10 ^ b := pow_le_pow_left₀ (by norm_num) (by norm_num) b

namespace Scientific

section

variable {s : Scientific} {num den : Nat} (positive : 0 < den) (same : s.value = num / den)
include positive same

theorem value_mul_eq : s.digits * 10 ^ s.exponent * (den : ℚ) = num := by
  have rational : (den : ℚ) ≠ 0 := by exact_mod_cast positive.ne'
  rw [← value, same, div_mul_cancel₀ _ rational]

/-- With a large exponent, a literal is beyond all doubles. -/
theorem roundUnits_of_large (some_digit : s.digits ≠ 0) (large : 400 < s.exponent) :
    Precision.double.roundUnits (num * 2 ^ Precision.double.unitExp) den =
      Precision.double.infinity := by
  obtain ⟨n, power, many⟩ : ∃ n : Nat, s.exponent = n ∧ 401 ≤ n := ⟨s.exponent.toNat, by omega⟩
  have digits : (1 : ℚ) ≤ s.digits := by exact_mod_cast Nat.one_le_iff_ne_zero.mpr some_digit
  obtain ⟨e, top⟩ : ∃ e, e = 1024 := ⟨_, rfl⟩
  have least : (2 : ℚ) ^ e * den ≤ num := by
    rw [← value_mul_eq positive same, power, zpow_natCast]
    refine mul_le_mul_of_nonneg_right ?_ (Nat.cast_nonneg den)
    calc (2 : ℚ) ^ e ≤ 10 ^ n := two_pow_le_ten_pow (by omega)
      _ ≤ s.digits * 10 ^ n := le_mul_of_one_le_left (by positivity) digits
  have whole : 2 ^ e * den ≤ num := by exact_mod_cast least
  apply Precision.roundUnits_eq_infinity positive
  rw [units_infinity top, Nat.mul_right_comm]
  exact Nat.mul_le_mul_right _ whole

/-- With an exponent far below the number of digits, a literal is next to nothing. -/
theorem roundUnits_of_tiny (tiny : s.exponent < -((Nat.log2 s.digits : Int) + 400)) :
    Precision.double.roundUnits (num * 2 ^ Precision.double.unitExp) den = 0 := by
  obtain ⟨n, power, many⟩ : ∃ n : Nat, s.exponent = -n ∧ s.digits.log2 + 401 ≤ n :=
    ⟨(-s.exponent).toNat, by omega⟩
  obtain ⟨u, hu⟩ : ∃ u, u = Precision.double.unitExp := ⟨_, rfl⟩
  have small : u = 1074 := hu
  have digits : (s.digits : ℚ) ≤ 2 ^ (s.digits.log2 + 1) := by
    exact_mod_cast Nat.le_of_lt Nat.lt_log2_self
  have most : 2 * ((num : ℚ) * 2 ^ u) ≤ den := by
    rw [← value_mul_eq positive same, power, zpow_neg, zpow_natCast]
    calc 2 * (s.digits * (10 ^ n : ℚ)⁻¹ * den * 2 ^ u)
        ≤ 2 * (2 ^ (s.digits.log2 + 1) * (10 ^ n : ℚ)⁻¹ * den * 2 ^ u) := by gcongr
      _ = 2 ^ (s.digits.log2 + 2 + u) * (10 ^ n : ℚ)⁻¹ * den := by ring
      _ ≤ 10 ^ n * (10 ^ n : ℚ)⁻¹ * den := by
        gcongr
        exact two_pow_le_ten_pow (by omega)
      _ = den := by rw [mul_inv_cancel₀ (by positivity), one_mul]
  apply Precision.roundUnits_eq_zero positive
  rw [← hu]
  exact_mod_cast most

theorem mul_den_eq : s.digits * 10 ^ s.exponent.toNat * den = num * 10 ^ (-s.exponent).toNat := by
  have equal : (s.digits : ℚ) * 10 ^ s.exponent.toNat * den = num * 10 ^ (-s.exponent).toNat := by
    rw [← value_mul_eq positive same, ten_zpow_eq_div]
    push_cast
    field_simp
  exact_mod_cast equal

/-- A literal is rounded by its value; the bounds within which powers of ten are computed do not
matter. -/
theorem toBinary_eq (negative : Bool) :
    s.toBinary negative = Binary.ofQuotient negative num den := by
  unfold toBinary Binary.ofQuotient
  split_ifs with none large tiny
  · have zero : num = 0 := by
      have value := value_mul_eq positive same
      rw [none, Nat.cast_zero, zero_mul, zero_mul] at value
      exact_mod_cast value.symm
    rw [zero, Nat.zero_mul, Precision.roundUnits_eq_zero positive (Nat.zero_le _)]
  · rw [roundUnits_of_large positive same none large]
  · rw [roundUnits_of_tiny positive same tiny]
  · apply congrArg (Binary.ofParts negative)
    apply Precision.roundUnits_congr (Nat.pow_pos (by decide)) positive
    rw [Nat.mul_right_comm, mul_den_eq positive same, Nat.mul_right_comm]

end

end Scientific

/-- A decimal text after its sign stands in a list of items as it is. -/
theorem isPlain_text (negative : Bool) (d : Decimal) :
    Text.IsPlain ((if negative then ['-'] else []) ++ d.text) := by
  have shape (c : Char) (held : c ∈ (if negative then ['-'] else []) ++ d.text) :
      c.isDigit = true ∨ c ∈ ['.', 'e', '-'] := by
    rcases List.mem_append.mp held with sign | held
    · split_ifs at sign <;> simp_all
    · exact d.isDigit_or_mem_of_mem_text held
  refine ⟨?_, ?_, ?_, fun c held => ?_⟩
  · obtain ⟨s, read, -⟩ := d.exists_readScientific_text
    intro empty
    rw [(List.append_eq_nil_iff.mp empty).2] at read
    cases read
  · exact fun comma => absurd (shape ',' comma) (by decide)
  · exact fun quote => absurd (shape '"' quote) (by decide)
  · rcases shape c held with digit | sign
    · have bounds := toNat_of_isDigit digit
      simp [Text.isWhiteSpace]
      omega
    · have bare : (['.', 'e', '-'].all fun c => !Text.isWhiteSpace c) = true := by decide
      simpa using List.all_eq_true.mp bare c sign

/-- The text of a decimal after a sign is read as the double nearest to its value. -/
theorem doubleOfText_text (negative : Bool) {d : Decimal} {num den : Nat} (positive : 0 < den)
    (same : d.value = num / den) :
    doubleOfText ((if negative then ['-'] else []) ++ d.text) =
      Binary.ofQuotient negative num den := by
  obtain ⟨s, read, value⟩ := d.exists_readScientific_text
  have sign : splitSign ((if negative then ['-'] else []) ++ d.text) = (negative, d.text) := by
    cases negative with
    | true => rfl
    | false =>
      have digit (c : Char) (first : d.text.head? = some c) := d.isDigit_head_text first
      unfold splitSign
      split
      case h_1 rest shown => exact absurd (digit '-' (congrArg List.head? shown)) (by decide)
      case h_2 rest shown => exact absurd (digit '+' (congrArg List.head? shown)) (by decide)
      case h_3 => rfl
  rw [doubleOfText, Text.trim_of_forall (isPlain_text negative d).isWhiteSpace_eq_false, readDouble,
    sign]
  simp only [read, Option.getD_some]
  exact Scientific.toBinary_eq positive (value.trans same) negative

end Numeral

end Columnar

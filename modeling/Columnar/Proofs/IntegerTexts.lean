import Columnar.Proofs.NumberTexts
import Columnar.Proofs.StoredIntegers

/-!
# Integer texts

The texts that denote an integer, as a grammar: decimal digits, hexadecimal digits behind a marker,
and floating literals, each after an optional sign. What is stored for a text in a column of
integers is what the text denotes by this grammar, with one exception: behind the marker the digits
may carry a second sign. Both signs count then, in arithmetic of 128 bits, where the opposite of the
least number is that number again.

## Main definitions

* `Numeral.Digits`, `Numeral.Literal`: digit strings and floating literals with their values.
* `Numeral.Denotes`: the integer that a text denotes.
* `Numeral.SignedTwice`: hexadecimal texts with two signs.

## Main statements

* `Numeral.reads_integer_texts`: the integers that are read.
-/

namespace Columnar

/-- The double nearest to a number that is not negative, with a sign. -/
def Binary.ofRat (negative : Bool) (q : ℚ) : Binary .double :=
  ofQuotient negative q.num.natAbs q.den

namespace Numeral

variable {base n : Nat} {cs ds rest : List Char} {q : ℚ} {v : Int}

/-! ## The grammar -/

inductive Sign where
  | none
  | plus
  | minus
  deriving DecidableEq, Repr

namespace Sign

def text : Sign → List Char
  | none => []
  | plus => ['+']
  | minus => ['-']

def isNegative (sign : Sign) : Bool := sign == minus

def apply (sign : Sign) (v : Int) : Int := if sign.isNegative then -v else v

/-- The sign of a number of 128 bits. -/
def applyWide (sign : Sign) (v : Int) : Int := if sign.isNegative then negateWide v else v

end Sign

/-- One or more digits, and the number that they spell. -/
inductive Digits (base : Nat) : List Char → Nat → Prop where
  | one {c : Char} {d : Nat} (value : digitValue c = some d) (small : d < base) : Digits base [c] d
  | more {cs : List Char} {n : Nat} {c : Char} {d : Nat} (before : Digits base cs n)
    (value : digitValue c = some d) (small : d < base) : Digits base (cs ++ [c]) (n * base + d)

/-- Decimal digits, with a point among or beside them if wanted. -/
inductive Mantissa : List Char → ℚ → Prop where
  | whole {ds : List Char} {n : Nat} (digits : Digits 10 ds n) : Mantissa ds n
  | point {whole fraction : List Char} {n : Nat} (digits : Digits 10 (whole ++ fraction) n) :
    Mantissa (whole ++ '.' :: fraction) (n / 10 ^ fraction.length)

/-- A floating literal without its sign. -/
inductive Literal : List Char → ℚ → Prop where
  | plain {cs : List Char} {q : ℚ} (mantissa : Mantissa cs q) : Literal cs q
  | power {cs ds : List Char} {q : ℚ} {e : Char} {n : Nat} (mantissa : Mantissa cs q)
    (marker : e = 'e' ∨ e = 'E') (sign : Sign) (digits : Digits 10 ds n) :
    Literal (cs ++ e :: (sign.text ++ ds)) (q * 10 ^ sign.apply n)

/-- The integer that a text without white space around it denotes. -/
inductive Denotes : List Char → Int → Prop where
  | decimal {ds : List Char} {n : Nat} (sign : Sign) (digits : Digits 10 ds n)
    (fits : Binary.fitsWide (sign.apply n) = true) : Denotes (sign.text ++ ds) (sign.apply n)
  | hexadecimal {x : Char} {ds : List Char} {n : Nat} (sign : Sign) (marker : x = 'x' ∨ x = 'X')
    (digits : Digits 16 ds n) (fits : Binary.fitsWide n = true) :
    Denotes (sign.text ++ '0' :: x :: ds) (sign.apply n)
  /-- Any other literal: one that is not made of digits alone, or of too many. -/
  | rounded {cs : List Char} {q : ℚ} {v : Int} (sign : Sign) (literal : Literal cs q)
    (other : ∀ n, Digits 10 cs n → Binary.fitsWide (sign.apply n) = false)
    (value : (Binary.ofRat sign.isNegative q).roundHalfUp = some v) : Denotes (sign.text ++ cs) v

/-- A hexadecimal text with a second sign behind its marker, and the number of 128 bits that it spells
if both signs count. -/
inductive SignedTwice : List Char → Int → Prop where
  | intro {x : Char} {ds : List Char} {n : Nat} (sign inner : Sign) (signed : inner ≠ .none)
    (marker : x = 'x' ∨ x = 'X') (digits : Digits 16 ds n)
    (fits : Binary.fitsWide (inner.apply n) = true) :
    SignedTwice (sign.text ++ '0' :: x :: (inner.text ++ ds)) (sign.applyWide (inner.apply n))

/-! ## Numbers of 128 bits -/

theorem fitsWide_iff : Binary.fitsWide v = true ↔ -(2 ^ 127) ≤ v ∧ v < 2 ^ 127 := by
  rw [Binary.fitsWide, Bool.and_eq_true, decide_eq_true_iff, decide_eq_true_iff]

/-- Only the least number has no opposite. -/
theorem negateWide_eq_neg (fits : Binary.fitsWide v = true) (above : v ≠ -(2 ^ 127)) :
    negateWide v = -v := by
  rw [fitsWide_iff] at fits
  exact Int.bmod_eq_of_le_mul_two (by push_cast; omega) (by push_cast; omega)

example : negateWide (-(2 ^ 127)) = -(2 ^ 127) := by decide

theorem fitsWide_negateWide (v : Int) : Binary.fitsWide (negateWide v) = true := by
  have wide : 0 < 2 ^ 128 := by decide
  have least := Int.le_bmod (x := -v) wide
  have greatest := Int.bmod_lt (x := -v) wide
  rw [fitsWide_iff, negateWide]
  push_cast at least greatest ⊢
  omega

theorem Sign.fitsWide_applyWide (sign : Sign) (fits : Binary.fitsWide v = true) :
    Binary.fitsWide (sign.applyWide v) = true := by
  unfold applyWide
  split
  · exact fitsWide_negateWide v
  · exact fits

/-- A number that is not negative has an opposite. -/
theorem Sign.applyWide_natCast (sign : Sign) (fits : Binary.fitsWide n = true) :
    sign.applyWide n = sign.apply n := by
  have above : (n : Int) ≠ -(2 ^ 127) := by omega
  rw [applyWide, apply, negateWide_eq_neg fits above]

theorem Sign.fitsWide_apply_natCast (sign : Sign) (fits : Binary.fitsWide n = true) :
    Binary.fitsWide (sign.apply n) = true := by
  rw [← sign.applyWide_natCast fits]
  exact sign.fitsWide_applyWide fits

/-! ## Digits -/

namespace Digits

theorem ne_nil (h : Digits base cs n) : cs ≠ [] := by
  cases h <;> simp

theorem isDigitOf_of_mem (h : Digits base cs n) : ∀ c ∈ cs, isDigitOf base c = true := by
  have digit {c : Char} {d : Nat} (value : digitValue c = some d) (small : d < base) :
      isDigitOf base c = true := by
    rw [isDigitOf, value]
    exact decide_eq_true small
  induction h with
  | one value small => simpa using digit value small
  | more before value small ih =>
    intro c held
    rcases List.mem_append.mp held with earlier | last
    · exact ih c earlier
    · obtain rfl := List.mem_singleton.mp last
      exact digit value small

theorem not_mem {c : Char} (h : Digits base cs n) (other : isDigitOf base c = false) : c ∉ cs := by
  intro held
  cases (h.isDigitOf_of_mem c held).symm.trans other

theorem digitsValue_eq (h : Digits base cs n) : digitsValue base cs = n := by
  induction h with
  | one value small => simp [Numeral.digitsValue_eq, appendDigits, value]
  | more before value small ih =>
    rw [Numeral.digitsValue_eq, appendDigits] at ih ⊢
    rw [List.foldl_append, ih]
    simp [value]

end Digits

/-- Whatever digits there are spell a number. -/
theorem digits_of_forall (nonempty : cs ≠ []) (digits : ∀ c ∈ cs, isDigitOf base c = true) :
    Digits base cs (digitsValue base cs) := by
  induction cs using List.reverseRecOn with
  | nil => exact absurd rfl nonempty
  | append_singleton cs c ih =>
    obtain ⟨d, value, small⟩ : ∃ d, digitValue c = some d ∧ d < base := by
      have digit := digits c (by simp)
      unfold isDigitOf at digit
      split at digit
      case h_1 d value => exact ⟨d, value, of_decide_eq_true digit⟩
      case h_2 => cases digit
    by_cases first : cs = []
    · subst first
      have one : Digits base [c] d := .one value small
      rwa [← one.digitsValue_eq] at one
    · have before := ih first fun b held => digits b (List.mem_append_left _ held)
      have more := before.more value small
      rwa [← more.digitsValue_eq] at more

theorem readNat_eq_some_iff : readNat base cs = some n ↔ Digits base cs n := by
  unfold readNat
  constructor
  · intro read
    split at read
    case isTrue shape =>
      rw [Bool.and_eq_true, List.all_eq_true] at shape
      cases read
      exact digits_of_forall (by simpa using shape.1) shape.2
    case isFalse => cases read
  · intro digits
    have shape : (!cs.isEmpty && cs.all (isDigitOf base)) = true := by
      rw [Bool.and_eq_true, List.all_eq_true]
      exact ⟨by simpa using digits.ne_nil, digits.isDigitOf_of_mem⟩
    rw [if_pos shape, digits.digitsValue_eq]

/-- The digits of the base ten are those without letters. -/
theorem isDigit_of_isDigitOf {c : Char} (digit : isDigitOf 10 c = true) : c.isDigit = true := by
  unfold isDigitOf digitValue at digit
  split_ifs at digit with decimal lower upper
  · simpa [Char.isDigit, Char.le_def] using decimal
  · have bound : 97 ≤ c.toNat := by simpa [Char.le_def, UInt32.le_iff_toNat_le] using lower.1
    have small : c.toNat - 87 < 10 := of_decide_eq_true digit
    omega
  · have bound : 65 ≤ c.toNat := by simpa [Char.le_def, UInt32.le_iff_toNat_le] using upper.1
    have small : c.toNat - 55 < 10 := of_decide_eq_true digit
    omega

theorem Digits.allDigits (h : Digits 10 cs n) : AllDigits cs :=
  fun c held => isDigit_of_isDigitOf (h.isDigitOf_of_mem c held)

/-! ## Signs -/

/-- A text that does not begin with a sign. -/
def Unsigned (cs : List Char) : Prop := cs.head? ≠ some '+' ∧ cs.head? ≠ some '-'

theorem Digits.unsigned (h : Digits base cs n) : Unsigned cs := by
  have bare (c : Char) (other : digitValue c = none) : cs.head? ≠ some c := by
    intro first
    refine h.not_mem ?_ (List.mem_of_mem_head? first)
    rw [isDigitOf, other]
  exact ⟨bare '+' (by decide), bare '-' (by decide)⟩

theorem splitSign_append (sign : Sign) (unsigned : Unsigned cs) :
    splitSign (sign.text ++ cs) = (sign.isNegative, cs) := by
  cases sign with
  | plus | minus => rfl
  | none =>
    change splitSign cs = (false, cs)
    unfold splitSign
    split
    case h_1 => exact absurd rfl unsigned.2
    case h_2 => exact absurd rfl unsigned.1
    case h_3 => rfl

/-- What is split off is a sign, and only one. -/
theorem exists_sign (cs : List Char) :
    ∃ sign : Sign, cs = sign.text ++ (splitSign cs).2 ∧ (splitSign cs).1 = sign.isNegative := by
  unfold splitSign
  split
  · exact ⟨.minus, rfl, rfl⟩
  · exact ⟨.plus, rfl, rfl⟩
  · exact ⟨.none, rfl, rfl⟩

theorem readInt_append (sign : Sign) (unsigned : Unsigned cs) :
    readInt base (sign.text ++ cs) = (readNat base cs).map fun n : Nat => sign.apply n := by
  cases number : readNat base cs <;>
    simp [readInt, splitSign_append sign unsigned, number, Sign.apply]

theorem readInt_eq_some_iff :
    readInt base cs = some v ↔
      ∃ (sign : Sign) (ds : List Char) (n : Nat), cs = sign.text ++ ds ∧ Digits base ds n ∧
        sign.apply n = v := by
  constructor
  · intro read
    obtain ⟨sign, split, negative⟩ := exists_sign cs
    cases number : readNat base (splitSign cs).2 with
    | none =>
      simp [readInt, number] at read
    | some n =>
      simp only [readInt, number, negative] at read
      exact ⟨sign, _, n, split, readNat_eq_some_iff.mp number, Option.some.inj read⟩
  · rintro ⟨sign, ds, n, rfl, digits, rfl⟩
    rw [readInt_append sign digits.unsigned, readNat_eq_some_iff.mpr digits]
    rfl

theorem readWide_eq_some_iff :
    readWide base cs = some v ↔
      ∃ (sign : Sign) (ds : List Char) (n : Nat), cs = sign.text ++ ds ∧ Digits base ds n ∧
        sign.apply n = v ∧ Binary.fitsWide v = true := by
  rw [readWide, Option.filter_eq_some_iff, readInt_eq_some_iff]
  constructor
  · rintro ⟨⟨sign, ds, n, split, digits, value⟩, fits⟩
    exact ⟨sign, ds, n, split, digits, value, fits⟩
  · rintro ⟨sign, ds, n, split, digits, value, fits⟩
    exact ⟨⟨sign, ds, n, split, digits, value⟩, fits⟩

/-! ## Floating literals -/

theorem Mantissa.exists_readScientific {e : Int} (h : Mantissa cs q) (rest : List Char)
    (power : readExponent rest = some e) :
    ∃ s, readScientific (cs ++ rest) = some s ∧ s.value = q * 10 ^ e := by
  cases h with
  | whole digits =>
    refine ⟨_, readScientific_whole rest digits.allDigits digits.ne_nil power, ?_⟩
    rw [Scientific.value, digits.digitsValue_eq]
  | @point whole fraction n digits =>
    have before : AllDigits whole := fun c held => digits.allDigits c (List.mem_append_left _ held)
    have after : AllDigits fraction :=
      fun c held => digits.allDigits c (List.mem_append_right _ held)
    rw [List.append_assoc, List.cons_append]
    refine ⟨_, readScientific_point before after digits.ne_nil power, ?_⟩
    rw [Scientific.value, digits.digitsValue_eq, zpow_sub₀ (by norm_num), zpow_natCast]
    ring

theorem Literal.exists_readScientific (h : Literal cs q) :
    ∃ s, readScientific cs = some s ∧ s.value = q := by
  cases h with
  | plain mantissa =>
    obtain ⟨s, read, value⟩ := mantissa.exists_readScientific [] rfl
    rw [List.append_nil] at read
    exact ⟨s, read, by rw [value, zpow_zero, mul_one]⟩
  | power mantissa marker sign digits =>
    have number := readInt_eq_some_iff.mpr ⟨sign, _, _, rfl, digits, rfl⟩
    exact mantissa.exists_readScientific _
      (readExponent_eq_some_iff.mpr (.inr ⟨_, _, rfl, marker, number⟩))

/-- What is read begins with a mantissa, and an exponent is all that follows. -/
theorem exists_mantissa {s : Scientific} (read : readScientific cs = some s) :
    ∃ front tail q e, cs = front ++ tail ∧ Mantissa front q ∧ readExponent tail = some e ∧
      s.value = q * 10 ^ e := by
  have halves (cs : List Char) :
      cs.takeWhile (isDigitOf 10) ++ cs.dropWhile (isDigitOf 10) = cs :=
    List.takeWhile_append_dropWhile
  have digits (cs : List Char) : ∀ c ∈ cs.takeWhile (isDigitOf 10), isDigitOf 10 c = true :=
    fun c held => List.mem_takeWhile_imp held
  have split := halves cs
  have before := digits cs
  unfold readScientific at read
  simp only at read
  generalize cs.takeWhile (isDigitOf 10) = whole at read split before
  generalize cs.dropWhile (isDigitOf 10) = rest at read split
  split at read
  case h_1 after =>
    simp only at read
    split_ifs at read with empty
    obtain ⟨e, power, rfl⟩ := Option.map_eq_some_iff.mp read
    have number := digits_of_forall (by simpa using empty) (List.forall_mem_append.mpr
      ⟨before, digits after⟩)
    refine ⟨_, _, _, e, ?_, .point number, power, ?_⟩
    · rw [← split, List.append_assoc, List.cons_append, halves]
    · rw [Scientific.value, zpow_sub₀ (by norm_num), zpow_natCast]
      ring
  case h_2 =>
    simp only [List.append_nil, List.isEmpty_nil, Bool.and_true] at read
    split_ifs at read with empty
    obtain ⟨e, power, rfl⟩ := Option.map_eq_some_iff.mp read
    have number := digits_of_forall (by simpa using empty) before
    refine ⟨whole, rest, _, e, split.symm, .whole number, power, ?_⟩
    rw [Scientific.value, List.length_nil, Nat.cast_zero, sub_zero]

/-- Exactly the literals are read, as the numbers that they denote. -/
theorem readScientific_iff :
    (∃ s, readScientific cs = some s ∧ s.value = q) ↔ Literal cs q := by
  refine ⟨?_, Literal.exists_readScientific⟩
  rintro ⟨s, read, rfl⟩
  obtain ⟨front, tail, q, e, rfl, mantissa, power, value⟩ := exists_mantissa read
  rw [value]
  rcases readExponent_eq_some_iff.mp power with ⟨rfl, rfl⟩ | ⟨c, tail, rfl, marker, power⟩
  · rw [List.append_nil, zpow_zero, mul_one]
    exact .plain mantissa
  · obtain ⟨sign, ds, n, rfl, digits, rfl⟩ := readInt_eq_some_iff.mp power
    exact .power mantissa marker sign digits

theorem Mantissa.unsigned (h : Mantissa cs q) (rest : List Char) : Unsigned (cs ++ rest) := by
  cases h with
  | whole digits =>
    obtain ⟨c, tail, rfl⟩ := List.exists_cons_of_ne_nil digits.ne_nil
    exact digits.unsigned
  | @point whole fraction n digits =>
    cases whole with
    | nil => exact ⟨by simp, by simp⟩
    | cons c tail => exact digits.unsigned

theorem Literal.unsigned (h : Literal cs q) : Unsigned cs := by
  cases h with
  | plain mantissa => simpa using mantissa.unsigned []
  | power mantissa => exact mantissa.unsigned _

theorem Scientific.toBinary_eq_ofRat (s : Scientific) (negative : Bool) :
    s.toBinary negative = Binary.ofRat negative s.value := by
  have positive : 0 ≤ s.value.num :=
    Rat.num_nonneg.mpr (mul_nonneg (Nat.cast_nonneg _) (zpow_nonneg (by norm_num) _))
  apply toBinary_eq s.value.den_pos
  rw [← Int.cast_natCast, Int.natAbs_of_nonneg positive, Rat.num_div_den]

/-- A word that stands for no finite number is rounded to no integer. -/
theorem readDouble_bind_eq_some_iff :
    (readDouble cs).bind Binary.roundHalfUp = some v ↔
      ∃ (sign : Sign) (body : List Char) (q : ℚ), cs = sign.text ++ body ∧ Literal body q ∧
        (Binary.ofRat sign.isNegative q).roundHalfUp = some v := by
  constructor
  · intro rounded
    obtain ⟨sign, split, negative⟩ := exists_sign cs
    simp only [readDouble, negative] at rounded
    split at rounded
    case h_1 s read =>
      rw [Option.bind_some, s.toBinary_eq_ofRat] at rounded
      exact ⟨sign, _, _, split, readScientific_iff.mp ⟨s, read, rfl⟩, rounded⟩
    case h_2 =>
      have words (negative : Bool) :
          (Binary.ofParts negative Precision.double.infinity : Binary .double).roundHalfUp = none ∧
          (Binary.nan : Binary .double).roundHalfUp = none := by cases negative <;> decide
      split_ifs at rounded
      · cases rounded.symm.trans (words _).1
      · cases rounded.symm.trans (words true).2
      · cases rounded
  · rintro ⟨sign, body, q, rfl, literal, rounded⟩
    obtain ⟨s, read, rfl⟩ := literal.exists_readScientific
    simp only [readDouble, splitSign_append sign literal.unsigned, read]
    rwa [Option.bind_some, s.toBinary_eq_ofRat]

/-! ## Hexadecimal texts -/

section

variable {x : Char} (marker : x = 'x' ∨ x = 'X')
include marker

/-- No decimal number has a hexadecimal marker. -/
theorem readScientific_marker (rest : List Char) : readScientific ('0' :: x :: rest) = none := by
  rcases marker with rfl | rfl <;> rfl

theorem readNat_marker (rest : List Char) : readNat 10 ('0' :: x :: rest) = none := by
  have other : isDigitOf 10 x = false := by
    rcases marker with rfl | rfl <;> decide
  simp [readNat, other]

theorem afterHexMarker_marker (rest : List Char) :
    afterHexMarker ('0' :: x :: rest) = some rest := by
  rcases marker with rfl | rfl <;> rfl

end

theorem exists_of_afterHexMarker (split : afterHexMarker cs = some rest) :
    ∃ x, (x = 'x' ∨ x = 'X') ∧ cs = '0' :: x :: rest := by
  unfold afterHexMarker at split
  split at split
  · cases split
    exact ⟨'x', .inl rfl, rfl⟩
  · cases split
    exact ⟨'X', .inr rfl, rfl⟩
  · cases split

theorem unsigned_zero (rest : List Char) : Unsigned ('0' :: rest) := ⟨by simp, by simp⟩

/-! ## The three ways to read an integer -/

variable {t digits : List Char}

theorem integerOfText_of_readWide (read : readWide 10 (Text.trim t) = some v) :
    integerOfText t = some v := by
  rw [integerOfText, read]

theorem integerOfText_of_marker (wide : readWide 10 (Text.trim t) = none)
    (marker : afterHexMarker (splitSign (Text.trim t)).2 = some digits) :
    integerOfText t = readHex (splitSign (Text.trim t)).1 digits := by
  simp only [integerOfText, wide, marker]

theorem integerOfText_of_literal (wide : readWide 10 (Text.trim t) = none)
    (marker : afterHexMarker (splitSign (Text.trim t)).2 = none) :
    integerOfText t = (readDouble (Text.trim t)).bind Binary.roundHalfUp := by
  simp only [integerOfText, wide, marker]

/-- A text with a hexadecimal marker is read by what follows the marker. -/
theorem integerOfText_hex {x : Char} (sign : Sign) (marker : x = 'x' ∨ x = 'X')
    (shape : Text.trim t = sign.text ++ '0' :: x :: digits) :
    integerOfText t = (readWide 16 digits).map sign.applyWide := by
  have split : splitSign (Text.trim t) = (sign.isNegative, '0' :: x :: digits) := by
    rw [shape, splitSign_append sign (unsigned_zero _)]
  have wide : readWide 10 (Text.trim t) = none := by
    rw [readWide, shape, readInt_append sign (unsigned_zero _), readNat_marker marker]
    rfl
  have marked : afterHexMarker (splitSign (Text.trim t)).2 = some digits := by
    rw [split, afterHexMarker_marker marker]
  rw [integerOfText_of_marker wide marked, split]
  rfl

theorem SignedTwice.integerOfText_eq (h : SignedTwice (Text.trim t) v) :
    integerOfText t = some v := by
  generalize shape : Text.trim t = cs at h
  cases h with
  | intro sign inner signed marker digits fits =>
    rw [integerOfText_hex sign marker shape,
      readWide_eq_some_iff.mpr ⟨inner, _, _, rfl, digits, rfl, fits⟩]
    rfl

theorem Denotes.integerOfText_eq (h : Denotes (Text.trim t) v) : integerOfText t = some v := by
  generalize shape : Text.trim t = cs at h
  cases h with
  | decimal sign digits fits =>
    apply integerOfText_of_readWide
    rw [shape]
    exact readWide_eq_some_iff.mpr ⟨sign, _, _, rfl, digits, rfl, fits⟩
  | @hexadecimal x ds n sign marker digits fits =>
    have read : readWide 16 ds = some (n : Int) :=
      readWide_eq_some_iff.mpr ⟨.none, _, _, rfl, digits, rfl, fits⟩
    rw [integerOfText_hex sign marker shape, read, ← sign.applyWide_natCast fits]
    rfl
  | @rounded cs q v sign literal other value =>
    obtain ⟨s, read, rfl⟩ := literal.exists_readScientific
    have wide : readWide 10 (Text.trim t) = none := by
      rw [readWide, shape, readInt_append sign literal.unsigned]
      cases number : readNat 10 cs with
      | none => rfl
      | some n => simpa using other n (readNat_eq_some_iff.mp number)
    have marker : afterHexMarker (splitSign (Text.trim t)).2 = none := by
      rw [shape, splitSign_append sign literal.unsigned]
      cases marked : afterHexMarker cs with
      | none => rfl
      | some rest =>
        obtain ⟨x, marker, rfl⟩ := exists_of_afterHexMarker marked
        cases (readScientific_marker marker rest).symm.trans read
    rw [integerOfText_of_literal wide marker, shape]
    exact readDouble_bind_eq_some_iff.mpr ⟨sign, cs, _, rfl, literal, value⟩

/-- What is read is denoted, but for a second sign. -/
theorem denotes_of_integerOfText (read : integerOfText t = some v) :
    Denotes (Text.trim t) v ∨ SignedTwice (Text.trim t) v := by
  cases wide : readWide 10 (Text.trim t) with
  | some u =>
    cases (integerOfText_of_readWide wide).symm.trans read
    obtain ⟨sign, ds, n, shape, digits, rfl, fits⟩ := readWide_eq_some_iff.mp wide
    rw [shape]
    exact .inl (.decimal sign digits fits)
  | none =>
    obtain ⟨sign, shape, negative⟩ := exists_sign (Text.trim t)
    cases marked : afterHexMarker (splitSign (Text.trim t)).2 with
    | some digits =>
      obtain ⟨x, marker, body⟩ := exists_of_afterHexMarker marked
      rw [body] at shape
      rw [integerOfText_hex sign marker shape, Option.map_eq_some_iff] at read
      obtain ⟨u, number, rfl⟩ := read
      obtain ⟨inner, ds, n, rfl, digits, rfl, fits⟩ := readWide_eq_some_iff.mp number
      rw [shape]
      by_cases signed : inner = .none
      · subst signed
        rw [Sign.apply, if_neg (by decide)] at fits ⊢
        rw [sign.applyWide_natCast fits]
        exact .inl (.hexadecimal sign marker digits fits)
      · exact .inr (.intro sign inner signed marker digits fits)
    | none =>
      rw [integerOfText_of_literal wide marked] at read
      obtain ⟨sign, body, q, shape, literal, value⟩ := readDouble_bind_eq_some_iff.mp read
      rw [shape]
      refine .inl (.rounded sign literal (fun n digits => ?_) value)
      cases fits : Binary.fitsWide (sign.apply n) with
      | false => rfl
      | true =>
        have other := readWide_eq_some_iff.mpr ⟨sign, body, n, shape, digits, rfl, fits⟩
        cases wide.symm.trans other

theorem integerOfText_eq_some_iff :
    integerOfText t = some v ↔ Denotes (Text.trim t) v ∨ SignedTwice (Text.trim t) v := by
  refine ⟨denotes_of_integerOfText, ?_⟩
  rintro (denoted | signed)
  · exact denoted.integerOfText_eq
  · exact signed.integerOfText_eq

theorem fitsWide_of_roundHalfUp {x : Binary .double} (rounded : x.roundHalfUp = some v) :
    Binary.fitsWide v = true := by
  dsimp only [Binary.roundHalfUp] at rounded
  split at rounded
  · split at rounded
    case isTrue fits =>
      cases rounded
      exact fits
    case isFalse => cases rounded
  · cases rounded

/-- Whatever is read is a number of 128 bits. -/
theorem fitsWide_of_integerOfText (read : integerOfText t = some v) : Binary.fitsWide v = true := by
  have meant := denotes_of_integerOfText read
  generalize Text.trim t = cs at meant
  rcases meant with denoted | signed
  · cases denoted with
    | decimal sign digits fits => exact fits
    | hexadecimal sign marker digits fits => exact sign.fitsWide_apply_natCast fits
    | rounded sign literal other value => exact fitsWide_of_roundHalfUp value
  · cases signed with
    | intro sign inner signed marker digits fits => exact sign.fitsWide_applyWide fits

/-- A text with two signs denotes nothing. -/
theorem SignedTwice.not_denotes {u : Int} (h : SignedTwice cs v) : ¬ Denotes cs u := by
  intro denoted
  cases h with
  | @intro x ds n sign inner signed marker digits fits =>
    -- Behind the first sign, both readings begin with a zero and the same marker.
    have behind := splitSign_append sign (unsigned_zero (x :: (inner.text ++ ds)))
    have first := congrArg Prod.snd behind
    generalize sign.text ++ '0' :: x :: (inner.text ++ ds) = cs at denoted first
    cases denoted with
    | decimal outer decimals =>
      rw [splitSign_append outer decimals.unsigned] at first
      cases first
      cases (readNat_marker marker _).symm.trans (readNat_eq_some_iff.mpr decimals)
    | hexadecimal outer other hexadecimals =>
      rw [splitSign_append outer (unsigned_zero _)] at first
      cases first
      cases inner with
      | none => exact signed rfl
      | plus => exact hexadecimals.unsigned.1 rfl
      | minus => exact hexadecimals.unsigned.2 rfl
    | rounded outer literal =>
      rw [splitSign_append outer literal.unsigned] at first
      cases first
      obtain ⟨s, read, -⟩ := literal.exists_readScientific
      cases (readScientific_marker marker _).symm.trans read

/-- A text is read as the integer that it denotes, or that its two signs and digits give, and as
none if there is no such integer; whatever is read fits 128 bits. So it is read as it should be
exactly if it has no second sign, since a text with two signs denotes nothing. The integer that is
read is the one that a column of integers stores for the text. -/
theorem reads_integer_texts (s : String) :
    (∀ v, integerOfText s.toList = some v ↔
      Denotes (Text.trim s.toList) v ∨ SignedTwice (Text.trim s.toList) v) ∧
    (∀ v, integerOfText s.toList = some v → Binary.fitsWide v = true) ∧
    ((∀ v, integerOfText s.toList = some v ↔ Denotes (Text.trim s.toList) v) ↔
      ∀ v, ¬ SignedTwice (Text.trim s.toList) v) ∧
    ∀ {env : Environment} {k : Kind} {c : Column k}, Column.Reachable env c → k.isInteger = true →
      (c.HasRoom env 1 → ∃ d, (Column.addText env s).run c = .ok () d ∧
        c.Stores d (c.words ++ ·) [integerOfText s.toList]) ∧
      ∀ i, i < c.size → ∃ d, (Column.setText i s).run c = .ok () d ∧
        c.Stores d (fun ws => c.words.take i ++ ws ++ c.words.drop (i + 1))
          [integerOfText s.toList] := by
  refine ⟨fun v => integerOfText_eq_some_iff, fun v => fitsWide_of_integerOfText,
    ⟨fun right v signed => ?_, fun once v => ?_⟩, ?_⟩
  · exact signed.not_denotes ((right v).mp signed.integerOfText_eq)
  · rw [integerOfText_eq_some_iff, or_iff_left (once v)]
  · intro env k c reached integer
    have word : Word.ofText k s = (integerOfText s.toList).bind (Word.ofInt k) := by
      cases k <;> first | rfl | cases integer
    refine ⟨fun room => ?_, fun i inside => ?_⟩
    · rw [Column.addText, word]
      exact (Column.addConverted_takesIn reached.wellFormed (.inl integer) _).stores room
    · rw [Column.setText, word]
      exact (Column.setConverted_takesIn reached.wellFormed (.inl integer) i _).stores inside

/-- A hexadecimal text with a sign, read and stored. -/
theorem bytes_of_hexadecimal :
    integerOfText " -0X1f".toList = some (-31) ∧
      ∃ d, (Column.addText {} " -0X1f").run (Column.empty {} .byte) = .ok () d ∧
        (Column.empty {} .byte).Stores d ((Column.empty {} .byte).words ++ ·) [some (-31)] := by
  have one : Digits 16 ['1'] 1 := .one (by decide) (by decide)
  have digits : Digits 16 ['1', 'f'] 31 := .more (d := 15) (c := 'f') one (by decide) (by decide)
  have denoted : Denotes (Text.trim " -0X1f".toList) (-31) :=
    .hexadecimal .minus (.inr rfl) digits (by decide)
  have reached : Column.Reachable {} (Column.empty {} .byte) := .empty .byte rfl
  obtain ⟨reads, -, -, stores⟩ := reads_integer_texts " -0X1f"
  have read := (reads (-31)).mpr (.inl denoted)
  obtain ⟨d, done, stored⟩ := (stores reached rfl).1 (.of_size_le (by decide))
  rw [read] at stored
  exact ⟨read, d, done, stored⟩

/-- The sign behind the marker is taken for a part of the number. -/
theorem minus_five_behind_marker :
    (∀ u, ¬ Denotes (Text.trim "0x-5".toList) u) ∧ integerOfText "0x-5".toList = some (-5) ∧
      Word.ofText .int "0x-5" = some (-5#32) := by
  have five : Digits 16 ['5'] 5 := .one (by decide) (by decide)
  have signed : SignedTwice (Text.trim "0x-5".toList) (-5) :=
    .intro .none .minus (by decide) (.inl rfl) five (by decide)
  have read := signed.integerOfText_eq
  exact ⟨fun u => signed.not_denotes, read, congrArg (Option.bind · (Word.ofInt .int)) read⟩

end Numeral

end Columnar

import Columnar.Numeral.Integer
import Columnar.Proofs.Splitting

/-!
# Decimal texts of integers

The decimal text of an integer is read as that integer, and stands in a list of items as it is.
-/

namespace Columnar.Numeral

variable {c : Char} {cs : List Char}

/-! ## Digits -/

theorem toNat_of_isDigit (digit : c.isDigit = true) : 48 ≤ c.toNat ∧ c.toNat ≤ 57 := by
  simpa [Char.isDigit, UInt32.le_iff_toNat_le] using digit

theorem digitValue_of_isDigit (digit : c.isDigit = true) : digitValue c = some (c.toNat - 48) :=
  if_pos (by simpa [Char.isDigit, Char.le_def] using digit)

theorem isDigitOf_of_isDigit (digit : c.isDigit = true) : isDigitOf 10 c = true := by
  have bounds := toNat_of_isDigit digit
  have small : c.toNat - 48 < 10 := by omega
  rw [isDigitOf, digitValue_of_isDigit digit]
  exact decide_eq_true small

theorem appendDigits_eq_ofDigitChars (digits : ∀ c ∈ cs, c.isDigit = true) (n : Nat) :
    appendDigits 10 n cs = Nat.ofDigitChars 10 cs n := by
  induction cs generalizing n with
  | nil => rfl
  | cons c cs ih =>
    have value := digitValue_of_isDigit (digits c List.mem_cons_self)
    have rest := ih fun d held => digits d (List.mem_cons_of_mem c held)
    rw [Nat.ofDigitChars_cons, ← rest, appendDigits, List.foldl_cons, value, Nat.mul_comm]
    rfl

theorem isDigit_of_mem {n : Nat} (held : c ∈ Nat.toDigits 10 n) : c.isDigit = true :=
  Nat.isDigit_of_mem_toDigits (by decide) (by decide) held

theorem readNat_toDigits (n : Nat) : readNat 10 (Nat.toDigits 10 n) = some n := by
  have digits (c : Char) (held : c ∈ Nat.toDigits 10 n) : c.isDigit = true := isDigit_of_mem held
  have all : (Nat.toDigits 10 n).all (isDigitOf 10) = true :=
    List.all_eq_true.mpr fun c held => isDigitOf_of_isDigit (digits c held)
  have nonempty : (Nat.toDigits 10 n).isEmpty = false := by simp
  rw [readNat, nonempty, all, digitsValue_eq, appendDigits_eq_ofDigitChars digits,
    Nat.ofDigitChars_ten_toDigits]
  rfl

/-! ## Integers -/

theorem toList_toString (v : Int) :
    (toString v).toList =
      if 0 ≤ v then Nat.toDigits 10 v.natAbs else '-' :: Nat.toDigits 10 v.natAbs := by
  rw [Int.toString_eq_repr, Int.repr_eq_if]
  split
  case isTrue positive =>
    have size : v.toNat = v.natAbs := by omega
    rw [Nat.toList_repr, size]
  case isFalse negative =>
    have size : (-v).toNat = v.natAbs := by omega
    rw [String.toList_append, Nat.toList_repr, size]
    rfl

/-- A digit is no sign. -/
theorem splitSign_toDigits (n : Nat) :
    splitSign (Nat.toDigits 10 n) = (false, Nat.toDigits 10 n) := by
  have digits (c : Char) (held : c ∈ Nat.toDigits 10 n) : c.isDigit = true := isDigit_of_mem held
  unfold splitSign
  split
  case h_1 rest shown => exact absurd (digits '-' (by simp [shown])) (by decide)
  case h_2 rest shown => exact absurd (digits '+' (by simp [shown])) (by decide)
  case h_3 => rfl

theorem readInt_toString (v : Int) : readInt 10 (toString v).toList = some v := by
  rw [toList_toString]
  by_cases positive : 0 ≤ v
  · have size : (v.natAbs : Int) = v := by omega
    rw [if_pos positive, readInt, splitSign_toDigits]
    simp only [readNat_toDigits]
    exact congrArg some size
  · have size : -(v.natAbs : Int) = v := by omega
    rw [if_neg positive, readInt, splitSign]
    simp only [readNat_toDigits]
    exact congrArg some size

theorem isPlain_toString (v : Int) : Text.IsPlain (toString v).toList := by
  have shape (c : Char) (held : c ∈ (toString v).toList) : c = '-' ∨ c.isDigit = true := by
    rw [toList_toString] at held
    have digit : c ∈ Nat.toDigits 10 v.natAbs → c.isDigit = true := isDigit_of_mem
    split at held <;> grind
  constructor
  · rw [toList_toString]
    split <;> simp
  · intro comma
    exact absurd (shape ',' comma) (by decide)
  · intro quote
    exact absurd (shape '"' quote) (by decide)
  · intro c held
    obtain rfl | digit := shape c held
    · decide
    · have bounds := toNat_of_isDigit digit
      simp [Text.isWhiteSpace]
      omega

/-- An integer of up to 128 bits is what its decimal text denotes. -/
theorem integerOfText_toString {v : Int} (fits : Binary.fitsWide v = true) :
    integerOfText (toString v).toList = some v := by
  have trimmed := Text.trim_of_forall (isPlain_toString v).isWhiteSpace_eq_false
  rw [integerOfText, trimmed, readWide, readInt_toString, Option.filter_some, fits]
  rfl

end Columnar.Numeral

import Columnar.Numeral.Digits
import Columnar.Text.Escape

/-!
# UTF-16 units and their escapes

Text is never made of stray surrogates, so decoding gives back exactly the characters that were
encoded, whatever units stand behind them. A unit is escaped as four hexadecimal digits, which are
read as its number.

## Main statements

* `Utf16.decode_encodeChar_append`: the units of a character are decoded to that character.
* `Text.readNat_unitDigits`: the digits of an escaped unit.
-/

namespace Columnar

/-! ## Characters as units -/

namespace Utf16

variable {c : Char} {cs : List Char} {rest : List CodeUnit}

/-- A character is no surrogate. -/
theorem toNat_bounds (c : Char) : c.toNat < 0xD800 ∨ 0xDFFF < c.toNat ∧ c.toNat < 0x110000 :=
  c.valid

theorem decode_cons_of_not_isHigh {u : CodeUnit} (plain : isHigh u = false) :
    decode (u :: rest) = charOfUnit u :: decode rest := by
  cases rest with
  | nil => rfl
  | cons v rest => simp [decode, plain]

theorem decode_pair {u v : CodeUnit} (high : isHigh u = true) (low : isLow v = true) :
    decode (u :: v :: rest) = some (charOfPair u v) :: decode rest := by
  simp [decode, high, low]

/-- The units of a character are decoded to that character, whatever follows them. -/
theorem decode_encodeChar_append (c : Char) (rest : List CodeUnit) :
    decode (encodeChar c ++ rest) = some c :: decode rest := by
  have valid := toNat_bounds c
  by_cases basic : c.toNat < 0x10000
  · have unit : (BitVec.ofNat 16 c.toNat).toNat = c.toNat := by simp; omega
    have high : isHigh (BitVec.ofNat 16 c.toNat) = false := by simp only [isHigh, unit]; grind
    have low : isLow (BitVec.ofNat 16 c.toNat) = false := by simp only [isLow, unit]; grind
    have whole : charOfUnit (BitVec.ofNat 16 c.toNat) = some c := by
      simp [charOfUnit, high, low, unit, Char.ofNat_toNat]
    simp only [encodeChar, if_pos basic, List.singleton_append]
    rw [decode_cons_of_not_isHigh high, whole]
  · obtain ⟨first, hfirst⟩ : ∃ n, n = 0xD800 + (c.toNat - 0x10000) / 0x400 := ⟨_, rfl⟩
    obtain ⟨second, hsecond⟩ : ∃ n, n = 0xDC00 + (c.toNat - 0x10000) % 0x400 := ⟨_, rfl⟩
    have firstUnit : (BitVec.ofNat 16 first).toNat = first := by simp; omega
    have secondUnit : (BitVec.ofNat 16 second).toNat = second := by simp; omega
    have high : isHigh (BitVec.ofNat 16 first) = true := by simp [isHigh, firstUnit]; omega
    have low : isLow (BitVec.ofNat 16 second) = true := by simp [isLow, secondUnit]; omega
    have pair : charOfPair (BitVec.ofNat 16 first) (BitVec.ofNat 16 second) = c := by
      have number : 0x10000 + (first - 0xD800) * 0x400 + (second - 0xDC00) = c.toNat := by omega
      rw [charOfPair, firstUnit, secondUnit, number, Char.ofNat_toNat]
    simp only [encodeChar, if_neg basic, ← hfirst, ← hsecond, List.cons_append, List.nil_append]
    rw [decode_pair high low, pair]

theorem decode_encode (cs : List Char) : decode (encode cs) = cs.map some := by
  induction cs with
  | nil => rfl
  | cons c cs ih =>
    have split : encode (c :: cs) = encodeChar c ++ encode cs := List.flatMap_cons
    rw [split, decode_encodeChar_append, ih, List.map_cons]

theorem decodeLossy_encode (cs : List Char) : decodeLossy (encode cs) = cs := by
  simp [decodeLossy, decode_encode, Function.comp_def]

theorem decodeStrict_encode (cs : List Char) : decodeStrict (encode cs) = some cs := by
  rw [decodeStrict, decode_encode]
  induction cs with
  | nil => rfl
  | cons c cs ih => simp_all

/-- A character below the surrogates has one unit, of its own number. -/
theorem encodeChar_of_lt (basic : c.toNat < 0x10000) :
    encodeChar c = [BitVec.ofNat 16 c.toNat] := if_pos basic

end Utf16

/-! ## Units as digits -/

namespace Numeral

theorem digitValue_digitChar {d : Nat} (digit : d < 16) :
    digitValue (Nat.digitChar d) = some d := by
  have table : ∀ d < 16, digitValue (Nat.digitChar d) = some d := by decide
  exact table d digit

theorem isDigitOf_digitChar {d : Nat} (digit : d < 16) :
    isDigitOf 16 (Nat.digitChar d) = true := by
  simp [isDigitOf, digitValue_digitChar digit, digit]

end Numeral

namespace Text

/-- The four digits of an escaped unit. -/
def unitDigits (u : CodeUnit) : List Char := (unitEscape u).drop 2

theorem unitEscape_eq (u : CodeUnit) : unitEscape u = '\\' :: 'u' :: unitDigits u := rfl

theorem length_unitDigits (u : CodeUnit) : (unitDigits u).length = 4 := rfl

theorem readNat_unitDigits (u : CodeUnit) : Numeral.readNat 16 (unitDigits u) = some u.toNat := by
  have small : u.toNat < 0x10000 := u.isLt
  have first : u.toNat / 0x1000 < 16 := by omega
  have second : u.toNat / 0x100 % 0x10 < 16 := by omega
  have third : u.toNat / 0x10 % 0x10 < 16 := by omega
  have fourth : u.toNat % 0x10 < 16 := by omega
  have digits : (unitDigits u).all (Numeral.isDigitOf 16) = true := by
    simp [unitDigits, unitEscape, Numeral.isDigitOf_digitChar, first, second, third, fourth]
  have value : Numeral.digitsValue 16 (unitDigits u) = u.toNat := by
    simp only [Numeral.digitsValue_eq, Numeral.appendDigits, unitDigits, unitEscape,
      List.drop_succ_cons, List.drop_zero, List.foldl_cons, List.foldl_nil,
      Numeral.digitValue_digitChar, first, second, third, fourth, Option.getD_some]
    omega
  rw [Numeral.readNat, digits, value]
  rfl

/-- A digit is no plus sign. -/
theorem head?_unitDigits (u : CodeUnit) : (unitDigits u).head? ≠ some '+' := by
  have small : u.toNat < 0x10000 := u.isLt
  have table : ∀ d < 16, Nat.digitChar d ≠ '+' := by decide
  have first := table (u.toNat / 0x1000) (by omega)
  simp [unitDigits, unitEscape, first]

theorem unicodeEscape_of_lt {c : Char} (basic : c.toNat < 0x10000) :
    unicodeEscape c = unitEscape (BitVec.ofNat 16 c.toNat) := by
  simp [unicodeEscape, Utf16.encodeChar_of_lt basic]

end Text

end Columnar

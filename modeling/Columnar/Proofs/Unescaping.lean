import Columnar.Proofs.Fields

/-!
# Escapes in quoted items

A raw text falls into characters and escapes. A short escape stands for one character, and `\u`
takes the next four characters with it: if these are hexadecimal digits, they are a UTF-16 unit, and
otherwise everything stays as it is. The units of an item are decoded together, so that two escaped
surrogates may make one character. There is one exception: three digits behind a plus sign are taken
for a unit as well.

## Main definitions

* `Utf16.DecodesBetween`: what characters and units stand for between other units.
* `Text.Tokenizes`: the characters and escapes of a raw text.
* `Text.Token.meaning`: the units that an escape is meant to be.
* `Text.Token.reading`: the units that it is read as.

## Main statements

* `Text.Tokenizes.unescape_eq`: what raw texts are read as.
* `Text.decodes_quoted_items`: the quoted items of any text.
-/

namespace Columnar

/-! ## Characters among other units -/

namespace Utf16

variable {u v high low : CodeUnit} {rest : List CodeUnit}

theorem decode_cons (single : ∀ v, rest.head? = some v → isLow v = false) (u : CodeUnit) :
    decode (u :: rest) = charOfUnit u :: decode rest := by
  cases rest with
  | nil => rfl
  | cons v rest => simp [decode, single v rfl]

/-- A character never starts with the second half of a pair. -/
theorem exists_encodeChar (c : Char) : ∃ u units, encodeChar c = u :: units ∧ isLow u = false := by
  have valid := toNat_bounds c
  by_cases basic : c.toNat < 0x10000
  · refine ⟨_, _, encodeChar_of_lt basic, ?_⟩
    simp [isLow]
    omega
  · refine ⟨_, _, if_neg basic, ?_⟩
    simp [isLow]
    omega

/-- A character is decoded to itself, whatever stands before and after it. -/
theorem decode_append_encodeChar (before : List CodeUnit) (c : Char) (after : List CodeUnit) :
    decode (before ++ (encodeChar c ++ after)) = decode before ++ some c :: decode after := by
  fun_induction decode before with
  | case1 => exact decode_encodeChar_append c after
  | case2 u =>
    have single (v : CodeUnit) (first : (encodeChar c ++ after).head? = some v) :
        isLow v = false := by
      obtain ⟨w, units, form, other⟩ := exists_encodeChar c
      rw [form] at first
      cases first
      exact other
    rw [List.singleton_append, decode_cons single, decode_encodeChar_append]
    rfl
  | case3 u v rest pair ih =>
    rw [List.cons_append, List.cons_append, decode, if_pos pair, ih, List.cons_append]
  | case4 u v rest single ih =>
    rw [List.cons_append, List.cons_append, decode, if_neg single, ← List.cons_append, ih,
      List.cons_append]

theorem decodeLossy_append_encodeChar (before : List CodeUnit) (c : Char)
    (after : List CodeUnit) :
    decodeLossy (before ++ (encodeChar c ++ after)) =
      decodeLossy before ++ c :: decodeLossy after := by
  simp [decodeLossy, decode_append_encodeChar]

theorem decodeLossy_encode_append (cs : List Char) (after : List CodeUnit) :
    decodeLossy (encode cs ++ after) = cs ++ decodeLossy after := by
  induction cs with
  | nil => rfl
  | cons c cs ih =>
    have parts : encode (c :: cs) ++ after = [] ++ (encodeChar c ++ (encode cs ++ after)) := by
      simp [encode]
    rw [parts, decodeLossy_append_encodeChar, ih]
    rfl

theorem toNat_ofNat {n : Nat} (valid : n.isValidChar) : (Char.ofNat n).toNat = n := by
  rw [Char.ofNat, dif_pos valid]
  rfl

/-- Two surrogates that make a pair are the units of one character. -/
theorem exists_encodeChar_eq_pair (first : isHigh high = true) (second : isLow low = true) :
    ∃ c : Char, c.toNat = 0x10000 + (high.toNat - 0xD800) * 0x400 + (low.toNat - 0xDC00) ∧
      encodeChar c = [high, low] := by
  simp only [isHigh, isLow, Bool.and_eq_true, decide_eq_true_eq] at first second
  generalize number : 0x10000 + (high.toNat - 0xD800) * 0x400 + (low.toNat - 0xDC00) = n
  have valid : n.isValidChar := .inr (by omega)
  have value := toNat_ofNat valid
  refine ⟨Char.ofNat n, value, ?_⟩
  have wide : ¬ (Char.ofNat n).toNat < 0x10000 := by omega
  have upper : 0xD800 + (n - 0x10000) / 0x400 = high.toNat := by omega
  have lower : 0xDC00 + (n - 0x10000) % 0x400 = low.toNat := by omega
  rw [encodeChar, value, if_neg (value ▸ wide), upper, lower, BitVec.ofNat_toNat,
    BitVec.setWidth_eq, BitVec.ofNat_toNat, BitVec.setWidth_eq]

/-- A unit that is no surrogate is the only one of a character. -/
theorem exists_encodeChar_eq_unit (high : isHigh u = false) (low : isLow u = false) :
    ∃ c : Char, c.toNat = u.toNat ∧ encodeChar c = [u] := by
  have bound : u.toNat < 0x10000 := u.isLt
  have valid : u.toNat.isValidChar := by
    simp [isHigh, isLow] at high low
    unfold Nat.isValidChar
    omega
  have value := toNat_ofNat valid
  refine ⟨Char.ofNat u.toNat, value, ?_⟩
  rw [encodeChar_of_lt (by omega), value, BitVec.ofNat_toNat, BitVec.setWidth_eq]

/-- What characters and units stand for between other units: a character for itself, a unit that is
no surrogate for the character of its number, and two surrogates that make a pair for one character
beyond the basic plane. -/
structure DecodesBetween (before after : List CodeUnit) : Prop where
  char : ∀ c, decodeLossy (before ++ (encodeChar c ++ after)) =
    decodeLossy before ++ c :: decodeLossy after
  unit : ∀ u, isHigh u = false → isLow u = false →
    ∃ c : Char, c.toNat = u.toNat ∧
      decodeLossy (before ++ u :: after) = decodeLossy before ++ c :: decodeLossy after
  pair : ∀ high low, isHigh high = true → isLow low = true →
    ∃ c : Char, c.toNat = 0x10000 + (high.toNat - 0xD800) * 0x400 + (low.toNat - 0xDC00) ∧
      decodeLossy (before ++ high :: low :: after) = decodeLossy before ++ c :: decodeLossy after

theorem decodesBetween (before after : List CodeUnit) : DecodesBetween before after where
  char c := decodeLossy_append_encodeChar before c after
  unit u high low := by
    obtain ⟨c, number, form⟩ := exists_encodeChar_eq_unit high low
    have parts : u :: after = encodeChar c ++ after := by rw [form]; rfl
    exact ⟨c, number, by rw [parts, decodeLossy_append_encodeChar]⟩
  pair high low first second := by
    obtain ⟨c, number, form⟩ := exists_encodeChar_eq_pair first second
    have parts : high :: low :: after = encodeChar c ++ after := by rw [form]; rfl
    exact ⟨c, number, by rw [parts, decodeLossy_append_encodeChar]⟩

end Utf16

namespace Text

open Numeral (digitValue)

variable {c : Char} {cs raw taken : List Char} {u : CodeUnit} {tokens : List Token}

/-! ## Hexadecimal digits -/

/-- The unit that four hexadecimal digits spell in base 16. -/
def fourDigits : List Char → Option CodeUnit
  | [a, b, c, d] => do
    let a ← digitValue a
    let b ← digitValue b
    let c ← digitValue c
    let d ← digitValue d
    return BitVec.ofNat 16 (a * 0x1000 + b * 0x100 + c * 0x10 + d)
  | _ => none

/-- The unit that three hexadecimal digits spell behind a plus sign. -/
def signedDigits : List Char → Option CodeUnit
  | '+' :: digits => fourDigits ('0' :: digits)
  | _ => none

theorem digitValue_lt {d : Nat} (value : digitValue c = some d) : d < 16 := by
  simp only [digitValue, Char.le_def, UInt32.le_iff_toNat_le, Char.toNat_val] at value
  have nine : '9'.toNat = 57 := rfl
  have lower : 'f'.toNat = 102 := rfl
  have upper : 'F'.toNat = 70 := rfl
  split_ifs at value <;> cases value <;> omega

theorem isDigitOf_sixteen (c : Char) : Numeral.isDigitOf 16 c = (digitValue c).isSome := by
  unfold Numeral.isDigitOf
  cases value : digitValue c with
  | none => rfl
  | some d => simpa using digitValue_lt value

theorem readNat_four (a b c d : Char) :
    (Numeral.readNat 16 [a, b, c, d]).map (BitVec.ofNat 16) = fourDigits [a, b, c, d] := by
  simp only [Numeral.readNat, Numeral.digitsValue_eq, Numeral.appendDigits, fourDigits,
    isDigitOf_sixteen, List.all_cons, List.all_nil, List.foldl_cons, List.foldl_nil]
  cases digitValue a <;> cases digitValue b <;> cases digitValue c <;> cases digitValue d <;> simp
  congr 1
  omega

theorem readNat_zero_cons (nonempty : cs ≠ []) :
    Numeral.readNat 16 ('0' :: cs) = Numeral.readNat 16 cs := by
  have digit : Numeral.isDigitOf 16 '0' = true := by decide
  have value : Numeral.appendDigits 16 0 ('0' :: cs) = Numeral.appendDigits 16 0 cs := rfl
  simp [Numeral.readNat, Numeral.digitsValue_eq, digit, value, nonempty]

theorem signedDigits_of_ne (unsigned : c ≠ '+') (cs : List Char) :
    signedDigits (c :: cs) = none := by
  unfold signedDigits
  split
  · simp_all
  · rfl

theorem fourDigits_of_length_ne (other : cs.length ≠ 4) : fourDigits cs = none := by
  unfold fourDigits
  split
  · exact absurd rfl other
  · rfl

theorem signedDigits_of_length_ne (other : cs.length ≠ 4) : signedDigits cs = none := by
  unfold signedDigits
  split
  · exact fourDigits_of_length_ne other
  · rfl

theorem fourDigits_plus (cs : List Char) : fourDigits ('+' :: cs) = none := by
  have plus : digitValue '+' = none := by decide
  by_cases three : cs.length = 3
  · obtain ⟨b, c, d, rfl⟩ := List.length_eq_three.mp three
    simp [fourDigits, plus]
  · exact fourDigits_of_length_ne (by simpa using three)

theorem exists_of_signedDigits (spelled : signedDigits taken = some u) :
    ∃ digits, taken = '+' :: digits ∧ digits.length = 3 ∧ u.toNat < 0x1000 := by
  unfold signedDigits at spelled
  split at spelled
  case h_1 digits =>
    have three : digits.length = 3 := by
      by_contra other
      rw [fourDigits_of_length_ne (by simpa using other)] at spelled
      cases spelled
    obtain ⟨a, b, c, rfl⟩ := List.length_eq_three.mp three
    have zero : digitValue '0' = some 0 := by decide
    simp only [fourDigits, zero, Option.bind_eq_bind, Option.bind_some,
      Option.bind_eq_some_iff] at spelled
    obtain ⟨x, hx, y, hy, z, hz, value⟩ := spelled
    have x_lt := digitValue_lt hx
    have y_lt := digitValue_lt hy
    have z_lt := digitValue_lt hz
    cases value
    exact ⟨_, rfl, three, by simp; omega⟩
  case h_2 => cases spelled

/-- Digits are read with or without a plus sign, which counts as one of the four characters. No text
is read in both ways. -/
theorem hexUnit_eq (taken : List Char) :
    hexUnit taken = (signedDigits taken).or (fourDigits taken) := by
  by_cases four : taken.length = 4
  · obtain ⟨a, b, c, d, rfl⟩ := List.length_eq_four.mp four
    by_cases sign : a = '+'
    · subst sign
      rw [fourDigits_plus, Option.or_none, signedDigits, ← readNat_four,
        readNat_zero_cons (by simp)]
      rfl
    · rw [signedDigits_of_ne sign, Option.none_or, ← readNat_four]
      simp [hexUnit, sign]
  · rw [hexUnit, if_neg four, signedDigits_of_length_ne four, fourDigits_of_length_ne four]
    rfl

/-! ## Tokens -/

/-- A character or an escape of a raw text. -/
inductive Token where
  | plain (c : Char)
  /-- `\u` with the characters taken after it. -/
  | unicode (taken : List Char)
  /-- A backslash before any other character. -/
  | other (c : Char)
  /-- A backslash with nothing behind it. -/
  | lone
deriving DecidableEq, Repr

/-- The characters and escapes of a raw text. After `\u` four characters are taken, or as many as
are left. -/
inductive Tokenizes : List Char → List Token → Prop where
  | nil : Tokenizes [] []
  | plain {c : Char} {cs : List Char} {tokens : List Token} (backslash : c ≠ '\\')
    (tail : Tokenizes cs tokens) : Tokenizes (c :: cs) (.plain c :: tokens)
  | unicode {taken cs : List Char} {tokens : List Token} (four : taken.length = 4)
    (tail : Tokenizes cs tokens) :
    Tokenizes ('\\' :: 'u' :: (taken ++ cs)) (.unicode taken :: tokens)
  | short {taken : List Char} (fewer : taken.length < 4) :
    Tokenizes ('\\' :: 'u' :: taken) [.unicode taken]
  | other {c : Char} {cs : List Char} {tokens : List Token} (unicode : c ≠ 'u')
    (tail : Tokenizes cs tokens) : Tokenizes ('\\' :: c :: cs) (.other c :: tokens)
  | lone : Tokenizes ['\\'] [.lone]

/-- The character that a backslash and `c` stand for. -/
def shortMeaning (c : Char) : Char :=
  match c with
  | 'n' => '\n'
  | 'r' => '\r'
  | 't' => '\t'
  | c => c

namespace Token

/-- The units that a token is meant to be: four hexadecimal digits after `\u` are one unit, and
anything else after it stays as it is, with the `\u`. -/
def meaning : Token → List CodeUnit
  | plain c => Utf16.encodeChar c
  | unicode taken =>
    (fourDigits taken).elim (Utf16.encode ('\\' :: 'u' :: taken)) fun unit => [unit]
  | other c => Utf16.encodeChar (shortMeaning c)
  | lone => Utf16.encodeChar '\\'

/-- The unit that `\u` with a plus sign and three digits is taken for. -/
def signedUnit : Token → Option CodeUnit
  | unicode taken => signedDigits taken
  | plain _ | other _ | lone => none

/-- The units that a token is read as: its meaning, unless it is signed. -/
def reading (token : Token) : List CodeUnit :=
  token.signedUnit.elim token.meaning fun unit => [unit]

theorem reading_of_unsigned {token : Token} (unsigned : token.signedUnit = none) :
    token.reading = token.meaning := by
  rw [reading, unsigned, Option.elim_none]

theorem reading_unicode (taken : List Char) :
    (unicode taken).reading =
      (hexUnit taken).elim (Utf16.encode ('\\' :: 'u' :: taken)) fun unit => [unit] := by
  rw [hexUnit_eq, reading, signedUnit, meaning]
  cases signedDigits taken <;> rfl

end Token

/-! ## Decoding -/

theorem unescape_unicode (cs : List Char) :
    unescape ('\\' :: 'u' :: cs) = (Token.unicode (cs.take 4)).reading ++ unescape (cs.drop 4) := by
  rw [unescape, Token.reading_unicode]
  cases hexUnit (cs.take 4) <;> rfl

theorem unescape_other (unicode : c ≠ 'u') (cs : List Char) :
    unescape ('\\' :: c :: cs) = (Token.other c).reading ++ unescape cs := by
  rw [Token.reading_of_unsigned rfl, Token.meaning]
  unfold shortMeaning
  split
  · rw [unescape]
  · rw [unescape]
  · rw [unescape]
  · rw [unescape]
    all_goals simp_all

/-- A raw text is read token by token. -/
theorem Tokenizes.unescape_eq (tokenizes : Tokenizes raw tokens) :
    unescape raw = tokens.flatMap Token.reading := by
  induction tokenizes with
  | nil => simp [unescape]
  | plain backslash _ ih =>
    rw [unescape_cons backslash, ih, List.flatMap_cons, Token.reading_of_unsigned rfl,
      Token.meaning]
  | unicode four _ ih =>
    rw [unescape_unicode, List.take_left' four, List.drop_left' four, ih, List.flatMap_cons]
  | short fewer =>
    have all := Nat.le_of_lt fewer
    rw [unescape_unicode, List.take_of_length_le all, List.drop_of_length_le all]
    simp [unescape]
  | other unicode _ ih => rw [unescape_other unicode, ih, List.flatMap_cons]
  | lone => simp [unescape, Token.reading, Token.signedUnit, Token.meaning]

/-- Every raw text falls into tokens. -/
theorem exists_tokenizes (raw : List Char) : ∃ tokens, Tokenizes raw tokens := by
  fun_induction unescape raw with
  | case1 => exact ⟨_, .nil⟩
  | case2 rest ih | case3 rest ih | case4 rest ih =>
    obtain ⟨tokens, tail⟩ := ih
    exact ⟨_, .other (by decide) tail⟩
  | case5 rest ih =>
    by_cases fewer : rest.length < 4
    · exact ⟨_, .short fewer⟩
    · obtain ⟨tokens, tail⟩ := ih
      have four : (rest.take 4).length = 4 := by
        rw [List.length_take]
        omega
      have whole := Tokenizes.unicode four tail
      rw [List.take_append_drop] at whole
      exact ⟨_, whole⟩
  | case6 c rest _ _ _ unicode ih =>
    obtain ⟨tokens, tail⟩ := ih
    exact ⟨_, .other unicode tail⟩
  | case7 c rest _ _ _ _ escape ih =>
    obtain ⟨tokens, tail⟩ := ih
    by_cases backslash : c = '\\'
    · subst backslash
      cases rest with
      | nil => exact ⟨_, .lone⟩
      | cons d rest => exact (escape d rest rfl rfl).elim
    · exact ⟨_, .plain backslash tail⟩

/-! ## Signed escapes -/

/-- A signed escape is read as one character, although it is meant to be six. -/
theorem Token.exists_of_signedUnit {token : Token} (signed : token.signedUnit = some u) :
    ∃ c d cs, token.reading = Utf16.encodeChar c ∧ token.meaning = Utf16.encode (d :: cs) ∧
      cs.length = 5 := by
  have single : token.reading = [u] := by rw [reading, signed, Option.elim_some]
  cases token with
  | unicode taken =>
    obtain ⟨digits, rfl, three, small⟩ := exists_of_signedDigits signed
    have high : Utf16.isHigh u = false := by
      simp [Utf16.isHigh]
      omega
    have low : Utf16.isLow u = false := by
      simp [Utf16.isLow]
      omega
    obtain ⟨c, -, form⟩ := Utf16.exists_encodeChar_eq_unit high low
    have kept : (unicode ('+' :: digits)).meaning =
        Utf16.encode ('\\' :: 'u' :: '+' :: digits) := by
      rw [meaning, fourDigits_plus, Option.elim_none]
    exact ⟨c, _, _, single.trans form.symm, kept, by simp [three]⟩
  | plain | other | lone => cases signed

/-- Every signed escape makes an item shorter than it is meant to be. -/
theorem length_decodeLossy_meaning (tokens : List Token) (before : List CodeUnit) :
    (Utf16.decodeLossy (before ++ tokens.flatMap Token.meaning)).length =
      (Utf16.decodeLossy (before ++ tokens.flatMap Token.reading)).length +
        5 * tokens.countP (·.signedUnit.isSome) := by
  induction tokens generalizing before with
  | nil => rfl
  | cons token tokens ih =>
    rw [List.flatMap_cons, List.flatMap_cons, List.countP_cons]
    cases signed : token.signedUnit with
    | none =>
      rw [Token.reading_of_unsigned signed, ← List.append_assoc, ← List.append_assoc, ih]
      simp
    | some u =>
      -- a character on either side, so that the units before it do not touch those behind it
      obtain ⟨c, d, cs, read, meant, five⟩ := Token.exists_of_signedUnit signed
      have others := ih []
      simp only [List.nil_append] at others
      have parts : Utf16.encode (d :: cs) = Utf16.encodeChar d ++ Utf16.encode cs := rfl
      rw [read, meant, parts, List.append_assoc, Utf16.decodeLossy_append_encodeChar,
        Utf16.decodeLossy_append_encodeChar, Utf16.decodeLossy_encode_append]
      simp only [List.length_append, List.length_cons, others, five, Option.isSome_some, if_true]
      omega

/-! ## Quoted items -/

/-- What a raw text is decoded to: its tokens are read, and the outcome is what they are meant to be
exactly if none of them is signed. -/
structure Decoded (raw item : List Char) : Prop where
  exists_tokens : ∃ tokens, Tokenizes raw tokens
  eq_reading : ∀ tokens, Tokenizes raw tokens →
    item = Utf16.decodeLossy (tokens.flatMap Token.reading)
  eq_meaning_iff : ∀ tokens, Tokenizes raw tokens →
    (item = Utf16.decodeLossy (tokens.flatMap Token.meaning) ↔
      ∀ token ∈ tokens, token.signedUnit = none)

theorem decoded_item (raw : List Char) : Decoded raw (Field.quoted raw).item where
  exists_tokens := exists_tokenizes raw
  eq_reading tokens tokenizes := by rw [Field.item, tokenizes.unescape_eq]
  eq_meaning_iff tokens tokenizes := by
    rw [Field.item, tokenizes.unescape_eq]
    constructor
    · intro same token held
      have longer := length_decodeLossy_meaning tokens []
      simp only [List.nil_append, ← same] at longer
      have none_signed : tokens.countP (·.signedUnit.isSome) = 0 := by omega
      have unsigned := List.countP_eq_zero.mp none_signed token held
      simpa using unsigned
    · intro unsigned
      have same : tokens.map Token.reading = tokens.map Token.meaning :=
        List.map_congr_left fun token held => Token.reading_of_unsigned (unsigned token held)
      rw [List.flatMap_def, List.flatMap_def, same]

/-- The quoted items of `s`, by its fields. -/
structure DecodesQuoted (s : String) : Prop where
  exists_fields : ∃ fields, Splits s.toList fields
  decoded : ∀ fields, Splits s.toList fields → ∀ (i : Nat) (raw : List Char),
    fields[i]? = some (.quoted raw) →
      ∃ item, (splitCsv s)[i]? = some item ∧ Decoded raw item.toList

/-- Every quoted item of a text is decoded by its tokens, to the characters that their units make
together. -/
theorem decodes_quoted_items (s : String) :
    DecodesQuoted s ∧ ∀ before after, Utf16.DecodesBetween before after := by
  refine ⟨⟨exists_splits s.toList, ?_⟩, Utf16.decodesBetween⟩
  intro fields splits i raw quoted
  refine ⟨_, splits.getElem?_splitCsv quoted, ?_⟩
  rw [String.toList_ofList]
  exact decoded_item raw

theorem pair_and_short_escape :
    (splitCsv "\"\\ud83d\\ude00\\t\\u12\", b")[0]? = some "😀\t\\u12" := by
  have tail : Splits [' ', 'b'] [.plain [' ', 'b']] :=
    .lastPlain (by decide) (unquoted_of_not_mem (by decide))
  have splits : Splits "\"\\ud83d\\ude00\\t\\u12\", b".toList
      [.quoted "\\ud83d\\ude00\\t\\u12".toList, .plain [' ', 'b']] :=
    @Splits.quoted [] _ _ [] _ _ rfl (between_scanQuoted "\\ud83d\\ude00\\t\\u12\", b".toList)
      (by decide) tail
  have short : Tokenizes "\\u12".toList [.unicode ['1', '2']] := .short (by decide)
  have control : Tokenizes "\\t\\u12".toList [.other 't', .unicode ['1', '2']] :=
    .other (by decide) short
  have tokenizes : Tokenizes "\\ud83d\\ude00\\t\\u12".toList
      [.unicode "d83d".toList, .unicode "de00".toList, .other 't', .unicode ['1', '2']] :=
    @Tokenizes.unicode "d83d".toList _ _ rfl (@Tokenizes.unicode "de00".toList _ _ rfl control)
  obtain ⟨item, found, decoded⟩ := (decodes_quoted_items _).1.decoded _ splits 0 _ rfl
  have meant := (decoded.eq_meaning_iff _ tokenizes).mpr (by decide)
  have whole : item.toList = "😀\t\\u12".toList := meant.trans (by decide)
  rw [found, String.toList_inj.mp whole]

/-- A plus sign is taken for one of the four digits. -/
theorem sign_among_digits :
    let raw := ['\\', 'u', '+', '1', '2', '3']
    let escape := Token.unicode ['+', '1', '2', '3']
    Splits "\"\\u+123\"".toList [.quoted raw] ∧ Tokenizes raw [escape] ∧
      fourDigits ['+', '1', '2', '3'] = none ∧ Utf16.decodeLossy escape.meaning = raw ∧
      splitCsv "\"\\u+123\"" = ["\u0123"] := by
  intro raw escape
  have splits : Splits "\"\\u+123\"".toList [.quoted raw] :=
    @Splits.lastQuoted [] _ _ _ rfl (between_scanQuoted "\\u+123\"".toList) (by decide)
  have tokenizes : Tokenizes raw [escape] := @Tokenizes.unicode ['+', '1', '2', '3'] [] [] rfl .nil
  have shown : isBlank "\"\\u+123\"".toList = false := by decide
  have read : (Field.quoted raw).item = "\u0123".toList := by
    rw [Field.item, tokenizes.unescape_eq]
    decide
  refine ⟨splits, tokenizes, by decide, by decide, ?_⟩
  rw [splitCsv, shown, splits.items_eq, List.map_singleton, read, List.map_singleton,
    String.ofList_toList]
  rfl

end Text

end Columnar

import Mathlib
import Columnar.Text.Utf8

/-!
# UTF-8, both ways

`Spells` is the table of well-formed byte sequences, one line for each length. The decoder's `next`
takes a sequence of the table off its input, and the table holds exactly the encodings of
characters, so the decoder accepts exactly the encodings of texts and returns what was encoded.
-/

namespace Columnar.Utf8

/-! ## The table -/

theorem isContinuation_iff {b : UInt8} :
    isContinuation b = true ↔ 0x80 ≤ b.toNat ∧ b.toNat < 0xC0 := by
  simp [isContinuation, UInt8.le_iff_toNat_le, UInt8.lt_iff_toNat_lt]

theorem mayFollow_iff {a b : UInt8} :
    mayFollow a b = true ↔ 0x80 ≤ b.toNat ∧ b.toNat < 0xC0 ∧
      (a.toNat = 0xE0 → 0xA0 ≤ b.toNat) ∧ (a.toNat = 0xED → b.toNat < 0xA0) ∧
      (a.toNat = 0xF0 → 0x90 ≤ b.toNat) ∧ (a.toNat = 0xF4 → b.toNat < 0x90) := by
  simp only [mayFollow, isContinuation, beq_iff_eq, ← UInt8.toNat_inj, UInt8.le_iff_toNat_le,
    UInt8.lt_iff_toNat_lt, UInt8.reduceToNat]
  grind

/-- The byte sequences that spell a character. -/
inductive Spells : List UInt8 → Char → Prop where
  | one {a : UInt8} (lead : a.toNat < 0x80) : Spells [a] (Char.ofNat a.toNat)
  | two {a b : UInt8} (lead : 0xC2 ≤ a.toNat ∧ a.toNat < 0xE0) (first : isContinuation b) :
    Spells [a, b] (assemble (a.toNat % 0x20) [b])
  | three {a b c : UInt8} (lead : 0xE0 ≤ a.toNat ∧ a.toNat < 0xF0) (first : mayFollow a b)
    (second : isContinuation c) : Spells [a, b, c] (assemble (a.toNat % 0x10) [b, c])
  | four {a b c d : UInt8} (lead : 0xF0 ≤ a.toNat ∧ a.toNat < 0xF5) (first : mayFollow a b)
    (second : isContinuation c) (third : isContinuation d) :
    Spells [a, b, c, d] (assemble (a.toNat % 0x08) [b, c, d])

/-- A character is taken off the input as its line of the table says. -/
theorem next_eq_ok_iff {a : UInt8} {rest : List UInt8} {ch : Char} {n : Nat} :
    next a rest = .ok (ch, n) ↔
      ∃ t tail, rest = t ++ tail ∧ n = t.length + 1 ∧ Spells (a :: t) ch := by
  constructor
  · intro h
    simp only [next, UInt8.lt_iff_toNat_lt, UInt8.reduceToNat] at h
    repeat' split at h
    all_goals try cases h
    · exact ⟨[], rest, rfl, rfl, .one ‹_›⟩
    · exact ⟨[_], _, rfl, rfl, .two (by omega) ‹_›⟩
    · exact ⟨[_, _], _, rfl, rfl, .three (by omega) (by simp_all) ‹_›⟩
    · exact ⟨[_, _, _], _, rfl, rfl, .four (by omega) (by simp_all) (by simp_all) ‹_›⟩
  · rintro ⟨t, tail, rfl, rfl, spelled⟩
    cases spelled with
    | one lead => simp [next, UInt8.lt_iff_toNat_lt, lead]
    | two lead first =>
      simp only [next, UInt8.lt_iff_toNat_lt, UInt8.reduceToNat]
      rw [if_neg (by omega), if_neg (by omega), if_pos (by omega)]
      simp [first]
    | three lead first second =>
      simp only [next, UInt8.lt_iff_toNat_lt, UInt8.reduceToNat]
      rw [if_neg (by omega), if_neg (by omega), if_neg (by omega), if_pos (by omega)]
      simp [first, second]
    | four lead first second third =>
      simp only [next, UInt8.lt_iff_toNat_lt, UInt8.reduceToNat]
      rw [if_neg (by omega), if_neg (by omega), if_neg (by omega), if_neg (by omega),
        if_pos (by omega)]
      simp [first, second, third]

/-! ## The table and the encoder -/

theorem Spells.eq_encode {bytes : List UInt8} {c : Char} (h : Spells bytes c) :
    bytes = String.utf8EncodeChar c := by
  cases h with
  | @one a lead =>
    have point : (Char.ofNat a.toNat).val.toNat = a.toNat :=
      (Char.toNat_ofNat _).trans (if_pos (.inl (by omega)))
    rw [String.utf8EncodeChar, point, if_pos (by omega)]
    simp
  | @two a b lead first =>
    obtain ⟨low, high⟩ := isContinuation_iff.mp first
    have point : (assemble (a.toNat % 0x20) [b]).val.toNat =
        a.toNat % 0x20 * 0x40 + b.toNat % 0x40 :=
      (Char.toNat_ofNat _).trans (if_pos (.inl (by grind)))
    rw [String.utf8EncodeChar, point, if_neg (by omega), if_pos (by omega)]
    simp [← UInt8.toNat_inj]
    omega
  | @three a b c lead first second =>
    obtain ⟨low, high, shortest, surrogate, -⟩ := mayFollow_iff.mp first
    obtain ⟨low', high'⟩ := isContinuation_iff.mp second
    have point : (assemble (a.toNat % 0x10) [b, c]).val.toNat =
        (a.toNat % 0x10 * 0x40 + b.toNat % 0x40) * 0x40 + c.toNat % 0x40 :=
      (Char.toNat_ofNat _).trans (if_pos (by simp [Nat.isValidChar]; omega))
    rw [String.utf8EncodeChar, point, if_neg (by omega), if_neg (by omega), if_pos (by omega)]
    simp [← UInt8.toNat_inj]
    omega
  | @four a b c d lead first second third =>
    obtain ⟨low, high, -, -, shortest, largest⟩ := mayFollow_iff.mp first
    obtain ⟨low', high'⟩ := isContinuation_iff.mp second
    obtain ⟨low'', high''⟩ := isContinuation_iff.mp third
    have point : (assemble (a.toNat % 0x08) [b, c, d]).val.toNat =
        ((a.toNat % 0x08 * 0x40 + b.toNat % 0x40) * 0x40 + c.toNat % 0x40) * 0x40 +
          d.toNat % 0x40 :=
      (Char.toNat_ofNat _).trans (if_pos (by simp [Nat.isValidChar]; omega))
    rw [String.utf8EncodeChar, point, if_neg (by omega), if_neg (by omega), if_neg (by omega)]
    simp [← UInt8.toNat_inj]
    omega

@[simp] theorem toNat_continuation (n : Nat) :
    (UInt8.ofNat (n % 0x40 + 0x80)).toNat = n % 0x40 + 0x80 := by
  simp
  omega

theorem spells_two {v : Nat} (low : 0x7f < v) (high : v ≤ 0x7ff) :
    Spells [UInt8.ofNat (v / 64 % 0x20 + 0xc0), UInt8.ofNat (v % 0x40 + 0x80)] (Char.ofNat v) := by
  have first := toNat_continuation v
  have lead : (UInt8.ofNat (v / 64 % 0x20 + 0xc0)).toNat = v / 64 + 0xc0 := by
    simp
    omega
  -- From here on only the values of the bytes matter, and those are in `lead` and `first`.
  generalize UInt8.ofNat (v / 64 % 0x20 + 0xc0) = a at lead
  generalize UInt8.ofNat (v % 0x40 + 0x80) = b at first
  have point : v = a.toNat % 0x20 * 0x40 + b.toNat % 0x40 := by omega
  rw [point]
  exact .two (by omega) (isContinuation_iff.mpr (by omega))

theorem spells_three {v : Nat} (low : 0x7ff < v) (high : v ≤ 0xffff)
    (valid : v < 0xD800 ∨ 0xDFFF < v) :
    Spells [UInt8.ofNat (v / 4096 % 0x10 + 0xe0), UInt8.ofNat (v / 64 % 0x40 + 0x80),
      UInt8.ofNat (v % 0x40 + 0x80)] (Char.ofNat v) := by
  have first := toNat_continuation (v / 64)
  have second := toNat_continuation v
  have lead : (UInt8.ofNat (v / 4096 % 0x10 + 0xe0)).toNat = v / 4096 + 0xe0 := by
    simp
    omega
  generalize UInt8.ofNat (v / 4096 % 0x10 + 0xe0) = a at lead
  generalize UInt8.ofNat (v / 64 % 0x40 + 0x80) = b at first
  generalize UInt8.ofNat (v % 0x40 + 0x80) = c at second
  have point : v = (a.toNat % 0x10 * 0x40 + b.toNat % 0x40) * 0x40 + c.toNat % 0x40 := by omega
  rw [point]
  exact .three (by omega) (mayFollow_iff.mpr (by omega)) (isContinuation_iff.mpr (by omega))

theorem spells_four {v : Nat} (low : 0xffff < v) (high : v < 0x110000) :
    Spells [UInt8.ofNat (v / 262144 % 0x08 + 0xf0), UInt8.ofNat (v / 4096 % 0x40 + 0x80),
      UInt8.ofNat (v / 64 % 0x40 + 0x80), UInt8.ofNat (v % 0x40 + 0x80)] (Char.ofNat v) := by
  have first := toNat_continuation (v / 4096)
  have second := toNat_continuation (v / 64)
  have third := toNat_continuation v
  have lead : (UInt8.ofNat (v / 262144 % 0x08 + 0xf0)).toNat = v / 262144 + 0xf0 := by
    simp
    omega
  generalize UInt8.ofNat (v / 262144 % 0x08 + 0xf0) = a at lead
  generalize UInt8.ofNat (v / 4096 % 0x40 + 0x80) = b at first
  generalize UInt8.ofNat (v / 64 % 0x40 + 0x80) = c at second
  generalize UInt8.ofNat (v % 0x40 + 0x80) = d at third
  have point : v = ((a.toNat % 0x08 * 0x40 + b.toNat % 0x40) * 0x40 + c.toNat % 0x40) * 0x40 +
      d.toNat % 0x40 := by omega
  rw [point]
  exact .four (by omega) (mayFollow_iff.mpr (by omega)) (isContinuation_iff.mpr (by omega))
    (isContinuation_iff.mpr (by omega))

theorem spells_encode (c : Char) : Spells (String.utf8EncodeChar c) c := by
  have valid : c.toNat < 0xD800 ∨ 0xDFFF < c.toNat ∧ c.toNat < 0x110000 := c.valid
  have self : Char.ofNat c.toNat = c := Char.ofNat_toNat c
  unfold String.utf8EncodeChar
  rw [show c.val.toNat = c.toNat from rfl]
  generalize c.toNat = v at valid self
  subst self
  by_cases one : v ≤ 0x7f
  · rw [if_pos one]
    have lead : (UInt8.ofNat v).toNat = v := by
      simp
      omega
    generalize UInt8.ofNat v = a at lead
    subst lead
    exact .one (by omega)
  by_cases two : v ≤ 0x7ff
  · rw [if_neg one, if_pos two]
    exact spells_two (by omega) two
  by_cases three : v ≤ 0xffff
  · rw [if_neg one, if_neg two, if_pos three]
    exact spells_three (by omega) three (by omega)
  · rw [if_neg one, if_neg two, if_neg three]
    exact spells_four (by omega) (by omega)

theorem spells_iff {bytes : List UInt8} {c : Char} :
    Spells bytes c ↔ bytes = String.utf8EncodeChar c := by
  constructor
  · exact Spells.eq_encode
  · rintro rfl
    exact spells_encode c

/-! ## Texts -/

/-- The decoder takes off exactly the characters that the encoder puts on. -/
theorem cons_eq_encode_cons_iff {a : UInt8} {rest : List UInt8} {c : Char} {more : List Char} :
    a :: rest = encode (c :: more) ↔
      ∃ n, next a rest = .ok (c, n) ∧ rest.drop (n - 1) = encode more := by
  have unfolded : encode (c :: more) = String.utf8EncodeChar c ++ encode more := rfl
  rw [unfolded]
  constructor
  · intro h
    cases split : String.utf8EncodeChar c with
    | nil => cases spells_iff.mpr split.symm
    | cons b t =>
      rw [split] at h
      obtain ⟨rfl, rfl⟩ := List.cons_eq_cons.mp h
      refine ⟨t.length + 1, next_eq_ok_iff.mpr ⟨t, _, rfl, rfl, spells_iff.mpr split.symm⟩, ?_⟩
      simp
  · rintro ⟨n, spelled, left⟩
    obtain ⟨t, tail, rfl, rfl, character⟩ := next_eq_ok_iff.mp spelled
    rw [← spells_iff.mp character, ← left]
    simp

theorem decodeFrom_eq_ok_iff {index : Nat} {done cs : List Char} {bytes : List UInt8} :
    decodeFrom index done bytes = .ok cs ↔
      ∃ more, cs = done.reverse ++ more ∧ bytes = encode more := by
  -- Along the recursion of the decoder: the end of input, a character, and a fault.
  fun_induction decodeFrom index done bytes with
  | case1 index done =>
    constructor
    · rintro ⟨⟩
      exact ⟨[], by simp, rfl⟩
    · rintro ⟨more, rfl, empty⟩
      cases more with
      | nil => simp
      | cons c more =>
        have none := (List.append_eq_nil_iff.mp empty.symm).1
        cases spells_iff.mpr none.symm
  | case2 index done a rest c n spelled ih =>
    rw [ih]
    constructor
    · rintro ⟨more, rfl, left⟩
      exact ⟨c :: more, by simp, cons_eq_encode_cons_iff.mpr ⟨n, spelled, left⟩⟩
    · rintro ⟨more, rfl, same⟩
      cases more with
      | nil => cases same
      | cons d more =>
        obtain ⟨m, spelled', left⟩ := cons_eq_encode_cons_iff.mp same
        obtain ⟨rfl, rfl⟩ : c = d ∧ n = m := by simpa [spelled] using spelled'
        exact ⟨more, by simp, left⟩
  | case3 index done a rest length wrong =>
    constructor
    · rintro ⟨⟩
    · rintro ⟨more, rfl, same⟩
      cases more with
      | nil => cases same
      | cons d more =>
        obtain ⟨m, spelled, -⟩ := cons_eq_encode_cons_iff.mp same
        rw [wrong] at spelled
        cases spelled

/-- Decoding is the inverse of encoding, and fails on everything that is no encoding. -/
theorem decode_eq_ok_iff {bytes : List UInt8} {cs : List Char} :
    decode bytes = .ok cs ↔ bytes = encode cs := by
  simp [decode, decodeFrom_eq_ok_iff]

theorem encode_toList (s : String) : encode s.toList = s.toByteArray.data.toList := by
  rw [← String.utf8Encode_toList]
  simp [List.utf8Encode, encode]

theorem length_encode_toList (s : String) : (encode s.toList).length = s.utf8ByteSize := by
  rw [encode_toList]
  rfl

/-- The encodings are the valid byte sequences in the sense of the string type. -/
theorem isValidUTF8_iff {bytes : List UInt8} :
    (ByteArray.mk bytes.toArray).IsValidUTF8 ↔ ∃ cs, bytes = encode cs := by
  constructor
  · rintro ⟨cs, same⟩
    refine ⟨cs, ?_⟩
    simpa [List.utf8Encode, encode] using congrArg (·.data.toList) same
  · rintro ⟨cs, rfl⟩
    exact ⟨cs, ByteArray.ext (by simp [List.utf8Encode, encode])⟩

end Columnar.Utf8

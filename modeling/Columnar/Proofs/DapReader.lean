import Columnar.Column.Dap
import Columnar.Proofs.Histories
import Columnar.Proofs.Reading

/-!
# What the DAP reader accepts

Of a record the reader looks at the payload alone: the padding, and the bits above the width of a
narrow integer, are read past. A vector is two counts, the second of which is not looked at, and as
many records as the first one says. `IsRecord` and `IsVector` leave such bytes open, and the reader
succeeds on just the inputs that begin with a record, or with a vector, as they describe it.

## Main definitions

* `Word.IsRecord`: the records of a word.
* `Column.IsVector`: the vectors of words.

## Main statements

* `Word.accepts_decodeDap`: what is read as one word is a record of it.
* `Column.run_internalizeDap_eq_ok_iff`: what a successful reading adds to a column.
-/

namespace Columnar

namespace Bytes

variable {a b n : Nat}

theorem littleEndian_append (a b n : Nat) :
    littleEndian (b + a) n = littleEndian b n ++ littleEndian a (n / 256 ^ b) := by
  induction b generalizing n with
  | zero => simp [littleEndian]
  | succ b ih =>
    rw [Nat.add_right_comm, littleEndian, ih, littleEndian, List.cons_append,
      Nat.div_div_eq_div_mul, ← Nat.pow_succ']

/-- The last bytes of a number are those of its remainder. -/
theorem bigEndian_append (a b n : Nat) :
    bigEndian (a + b) n = bigEndian a (n / 256 ^ b) ++ bigEndian b n := by
  rw [bigEndian, Nat.add_comm a b, littleEndian_append, List.reverse_append]
  rfl

theorem bigEndian_mod (b n : Nat) : bigEndian b (n % 256 ^ b) = bigEndian b n := by
  have spelled := bigEndian_ofBigEndian (bigEndian b n)
  rwa [length_bigEndian, ofBigEndian_bigEndian] at spelled

theorem bigEndian_injective {bits width : Nat} (size : bits = 8 * width) {x y : BitVec bits}
    (same : bigEndian width x.toNat = bigEndian width y.toNat) : x = y := by
  rw [← ofNat_ofBigEndian_bigEndian size x, same, ofNat_ofBigEndian_bigEndian size]

end Bytes

namespace Word

/-! ## Records -/

/-- The bytes are a record of the word. An integer stands in the last bytes of a slot of four, or
of as many as it needs; of the record of a code unit only the first byte counts, and of that of a
text the length and so many bytes. -/
def IsRecord : {k : Kind} → List UInt8 → Word k → Prop
  | .signed w, bytes, x => ∃ high : List UInt8, high.length = 4 - w.bytes ∧
      bytes = high ++ Bytes.bigEndian w.bytes (BitVec.toNat x)
  | .unsigned w, bytes, x => ∃ high : List UInt8, high.length = 4 - w.bytes ∧
      bytes = high ++ Bytes.bigEndian w.bytes (BitVec.toNat x)
  | .floating p, bytes, x => bytes = Bytes.bigEndian p.bytes (BitVec.toNat x)
  | .char, bytes, x => ∃ (b : UInt8) (pad : List UInt8), pad.length = 3 ∧ bytes = b :: pad ∧
      x = BitVec.ofNat 16 b.toNat
  | .string, bytes, x => ∃ text pad : List UInt8, text.length < 2 ^ 31 ∧
      pad.length = padding text.length ∧ bytes = Bytes.bigEndian 4 text.length ++ text ++ pad ∧
      x = String.ofList (text.map fun b => Char.ofNat b.toNat)

theorem run_readFixed_append (what : String) {bits width : Nat} (size : bits = 8 * width)
    (x : BitVec bits) (rest : List UInt8) :
    (readFixed what bits).run (Bytes.bigEndian width x.toNat ++ rest) = .ok x rest :=
  (inverts_readFixed what size _ _ _).mpr ⟨_, rfl, rfl⟩

/-- The low bits of a slot stand in its last bytes. -/
theorem bigEndian_slot {w : IntWidth} (narrow : w.bytes < 4) (y : BitVec 32) :
    Bytes.bigEndian 4 y.toNat = Bytes.bigEndian (4 - w.bytes) (y.toNat / 256 ^ w.bytes) ++
      Bytes.bigEndian w.bytes (y.setWidth w.bits).toNat := by
  have size : 4 - w.bytes + w.bytes = 4 := by omega
  rw [BitVec.toNat_setWidth, Bytes.two_pow_eq w.bits_eq, Bytes.bigEndian_mod,
    ← Bytes.bigEndian_append, size]

theorem accepts_decodeDapInteger (what : String) (w : IntWidth) :
    (decodeDapInteger what w).Accepts fun bytes x => ∃ high : List UInt8,
      high.length = 4 - w.bytes ∧ bytes = high ++ Bytes.bigEndian w.bytes x.toNat := by
  intro input x rest
  unfold decodeDapInteger
  by_cases narrow : w.bytes < 4
  · have slots := inverts_readFixed what (show 32 = 8 * 4 from rfl)
    rw [if_pos narrow, run_bind_eq_ok_iff]
    constructor
    · rintro ⟨y, left, first, ⟨⟩⟩
      obtain ⟨_, ⟨⟩, rfl⟩ := (slots _ _ _).mp first
      exact ⟨_, ⟨_, Bytes.length_bigEndian _ _, bigEndian_slot narrow y⟩, rfl⟩
    · rintro ⟨bytes, ⟨high, length, shape⟩, rfl⟩
      have four : bytes.length = 4 := by
        rw [shape, List.length_append, length, Bytes.length_bigEndian]
        omega
      have spelled := Bytes.bigEndian_ofNat_ofBigEndian (show 32 = 8 * 4 from rfl) four
      generalize BitVec.ofNat 32 (Bytes.ofBigEndian bytes) = y at spelled
      have first := (slots (bytes ++ rest) y rest).mpr ⟨_, rfl, by rw [spelled]⟩
      have same : y.setWidth w.bits = x := by
        rw [bigEndian_slot narrow, shape] at spelled
        exact Bytes.bigEndian_injective w.bits_eq (List.append_inj_right' spelled (by simp))
      exact ⟨y, rest, first, by rw [same, EStateM.run_pure]⟩
  · have none : 4 - w.bytes = 0 := by omega
    rw [if_neg narrow, inverts_readFixed what w.bits_eq, none]
    simp

theorem accepts_decodeDapUnit : decodeDapUnit.Accepts (IsRecord (k := .char)) := by
  intro input x rest
  rw [decodeDapUnit, run_bind_eq_ok_iff]
  simp only [Reader.run_require_eq_ok_iff]
  constructor
  · rintro ⟨_, left, ⟨enough, rfl⟩, taken⟩
    cases left with
    | nil => cases enough
    | cons b tail =>
      cases taken
      exact ⟨b :: tail.take 3, ⟨b, _, by simpa using enough, rfl, rfl⟩, by simp⟩
  · rintro ⟨_, ⟨b, pad, length, rfl, rfl⟩, rfl⟩
    have behind : (pad ++ rest).drop 3 = rest := List.drop_left' length
    exact ⟨(), _, ⟨by simp; omega, rfl⟩, congrArg (EStateM.Result.ok _) behind⟩

theorem toNat_count {count : Nat} (small : count < 2 ^ 31) :
    (BitVec.ofNat 32 count).toNat = count :=
  Nat.mod_eq_of_lt (by omega)

/-- Counts below `2 ^ 31` are not negative as signed numbers. -/
theorem toInt_count {count : Nat} (small : count < 2 ^ 31) :
    (BitVec.ofNat 32 count).toInt = count := by
  have number := toNat_count small
  rw [BitVec.toInt_eq_toNat_of_lt (by omega), number]

theorem toInt_nonneg_iff {y : BitVec 32} : 0 ≤ y.toInt ↔ y.toNat < 2 ^ 31 := by
  have bound := y.isLt
  rw [BitVec.toInt_eq_toNat_cond]
  split <;> omega

/-- The reader of a text, once its length is known and not negative. -/
theorem run_decodeDapText {count : Nat} (small : count < 2 ^ 31) (input : List UInt8)
    (there : count + padding count ≤ input.length) :
    decodeDapText.run (Bytes.bigEndian 4 count ++ input) =
      .ok (String.ofList ((input.take count).map fun b => Char.ofNat b.toNat))
        (input.drop (count + padding count)) := by
  have counted := run_readFixed_append "string length" (show 32 = 8 * 4 from rfl)
    (BitVec.ofNat 32 count) input
  rw [toNat_count small] at counted
  rw [decodeDapText, EStateM.run_bind, counted]
  simp only [toInt_count small]
  rw [if_neg (by omega), Int.toNat_natCast, EStateM.run_bind, Reader.run_require, if_pos there]
  simp only [EStateM.run_bind, Reader.run_take, EStateM.run_pure, List.take_take]
  rw [Nat.min_eq_left (Nat.le_add_right _ _)]

/-- A length was read that is not negative, and the bytes that it calls for were there. -/
theorem exists_of_run_decodeDapText {input rest : List UInt8} {s : String}
    (h : decodeDapText.run input = .ok s rest) :
    ∃ count left, count < 2 ^ 31 ∧ input = Bytes.bigEndian 4 count ++ left ∧
      count + padding count ≤ left.length := by
  rw [decodeDapText, run_bind_eq_ok_iff] at h
  obtain ⟨y, left, first, h⟩ := h
  obtain ⟨_, ⟨⟩, rfl⟩ := (inverts_readFixed _ (show 32 = 8 * 4 from rfl) _ _ _).mp first
  dsimp only at h
  split_ifs at h with negative
  · cases h
  · simp only [run_bind_eq_ok_iff, Reader.run_require_eq_ok_iff] at h
    obtain ⟨_, left, ⟨there, rfl⟩, -⟩ := h
    have small := toInt_nonneg_iff.mp (Int.not_lt.mp negative)
    have number : y.toInt.toNat = y.toNat := by
      rw [BitVec.toInt_eq_toNat_of_lt (by omega), Int.toNat_natCast]
    rw [number] at there
    exact ⟨y.toNat, left, small, rfl, there⟩

theorem accepts_decodeDapText : decodeDapText.Accepts (IsRecord (k := .string)) := by
  intro input s rest
  constructor
  · intro h
    obtain ⟨count, left, small, rfl, there⟩ := exists_of_run_decodeDapText h
    rw [run_decodeDapText small left there] at h
    cases h
    have length : (left.take count).length = count := by
      rw [List.length_take]
      omega
    refine ⟨_, ⟨left.take count, (left.drop count).take (padding count), ?_, ?_, rfl, rfl⟩, ?_⟩
    · rwa [length]
    · rw [length, List.length_take, List.length_drop]
      omega
    · rw [length, List.append_assoc, List.append_assoc, ← List.append_assoc (left.take count),
        ← List.take_add, List.take_append_drop]
  · rintro ⟨_, ⟨text, pad, small, padded, rfl, rfl⟩, rfl⟩
    have length : (text ++ pad).length = text.length + padding text.length := by simp [padded]
    rw [List.append_assoc, List.append_assoc, run_decodeDapText small _ (by simp; omega),
      List.take_left, ← List.append_assoc text, List.drop_left' length]

/-- What is read as one word is a record of it. -/
theorem accepts_decodeDap : (k : Kind) → (decodeDap k).Accepts (IsRecord (k := k))
  | .signed w => accepts_decodeDapInteger _ w
  | .unsigned w => accepts_decodeDapInteger _ w
  | .floating p => fun input x rest => by
    rw [decodeDap, inverts_readFixed _ p.bits_eq]
    simp [IsRecord]
  | .char => accepts_decodeDapUnit
  | .string => accepts_decodeDapText

variable {k : Kind} {width : Nat} {bytes : List UInt8}

theorem recordWidth_cases (k : Kind) :
    k = .string ∨ k.recordWidth = some 4 ∨ k.recordWidth = some 8 := by
  rcases k with ((_ | _ | _ | _) | (_ | _ | _ | _) | (_ | _) | _ | _) <;> decide

/-- An integer takes a slot of four bytes, or as many as it has. -/
theorem recordWidth_integer (w : IntWidth) :
    (Kind.signed w).recordWidth = some (4 - w.bytes + w.bytes) ∧
      (Kind.unsigned w).recordWidth = some (4 - w.bytes + w.bytes) := by
  cases w <;> exact ⟨rfl, rfl⟩

theorem length_of_isRecord (fixed : k.recordWidth = some width) {w : Word k}
    (record : IsRecord bytes w) : bytes.length = width := by
  cases k with
  | signed v =>
    obtain ⟨high, length, rfl⟩ := record
    cases (recordWidth_integer v).1.symm.trans fixed
    simp [length]
  | unsigned v =>
    obtain ⟨high, length, rfl⟩ := record
    cases (recordWidth_integer v).2.symm.trans fixed
    simp [length]
  | floating p =>
    obtain rfl := record
    cases p <;> cases fixed <;> exact Bytes.length_bigEndian _ _
  | char =>
    obtain ⟨b, pad, length, rfl, -⟩ := record
    cases fixed
    simp [length]
  | string => cases fixed

/-- Any bytes of the right number are a slot. -/
theorem exists_slot {w : IntWidth} (length : bytes.length = 4 - w.bytes + w.bytes) :
    ∃ (x : BitVec w.bits) (high : List UInt8), high.length = 4 - w.bytes ∧
      bytes = high ++ Bytes.bigEndian w.bytes x.toNat := by
  have low : (bytes.drop (4 - w.bytes)).length = w.bytes := by
    rw [List.length_drop]
    omega
  have spelled := Bytes.bigEndian_ofNat_ofBigEndian w.bits_eq low
  refine ⟨_, bytes.take (4 - w.bytes), ?_, by rw [spelled, List.take_append_drop]⟩
  rw [List.length_take]
  omega

/-- Any bytes of the right number are a record. -/
theorem exists_isRecord (fixed : k.recordWidth = some width) (length : bytes.length = width) :
    ∃ w : Word k, IsRecord bytes w := by
  cases k with
  | signed v =>
    cases (recordWidth_integer v).1.symm.trans fixed
    exact exists_slot length
  | unsigned v =>
    cases (recordWidth_integer v).2.symm.trans fixed
    exact exists_slot length
  | floating p =>
    have same : bytes.length = p.bytes := by cases p <;> cases fixed <;> exact length
    exact ⟨_, (Bytes.bigEndian_ofNat_ofBigEndian p.bits_eq same).symm⟩
  | char =>
    cases fixed
    cases bytes with
    | nil => cases length
    | cons b pad => exact ⟨_, b, pad, by simpa using length, rfl, rfl⟩
  | string => cases fixed

end Word

/-- The signed number of 32 bits that four bytes spell. -/
def Bytes.signedBigEndian (bytes : List UInt8) : Int :=
  (BitVec.ofNat 32 (ofBigEndian bytes)).toInt

theorem Bytes.signedBigEndian_eq_iff {bytes : List UInt8} (length : bytes.length = 4) {n : Nat} :
    signedBigEndian bytes = n ↔ n < 2 ^ 31 ∧ bytes = bigEndian 4 n := by
  have spelled := bigEndian_ofNat_ofBigEndian (show 32 = 8 * 4 from rfl) length
  unfold signedBigEndian
  generalize BitVec.ofNat 32 (ofBigEndian bytes) = y at spelled
  constructor
  · intro same
    have positive : y.toNat < 2 ^ 31 := Word.toInt_nonneg_iff.mp (by omega)
    have number : y.toNat = n := by
      rw [BitVec.toInt_eq_toNat_of_lt (by omega)] at same
      exact Int.ofNat.inj same
    exact ⟨by omega, by rw [← spelled, number]⟩
  · rintro ⟨small, rfl⟩
    have number : y = BitVec.ofNat 32 n := by
      apply bigEndian_injective (show 32 = 8 * 4 from rfl)
      rw [spelled, Word.toNat_count small]
    rw [number, Word.toInt_count small]

namespace Column

variable {k : Kind} {env : Environment} {d e : Column k} {n : Nat} {words : List (Word k)}
  {records : List (List UInt8)} {input rest : List UInt8}

/-! ## Vectors -/

theorem run_readVectorHeader_of_length (there : 8 ≤ input.length) :
    readVectorHeader.run input =
      if Bytes.signedBigEndian (input.take 4) < 0 then
        .error (.invalidData (.negativeCount (Bytes.signedBigEndian (input.take 4))))
          (input.drop 8)
      else .ok (Bytes.signedBigEndian (input.take 4)).toNat (input.drop 8) := by
  have behind : (input.drop 4).drop 4 = input.drop 8 := List.drop_drop
  rw [readVectorHeader, EStateM.run_bind, Reader.run_require, if_pos there]
  simp only [EStateM.run_bind, Reader.run_word, Nat.reduceDiv, behind]
  change EStateM.run (if Bytes.signedBigEndian (input.take 4) < 0 then _ else _) _ = _
  split <;> rfl

/-- The first count is the number of elements, and the second one may be anything. -/
theorem accepts_readVectorHeader : readVectorHeader.Accepts fun bytes n =>
    bytes.length = 8 ∧ Bytes.signedBigEndian (bytes.take 4) = n := by
  intro input n rest
  constructor
  · intro h
    have checked := h
    rw [readVectorHeader, run_bind_eq_ok_iff] at checked
    obtain ⟨_, _, required, -⟩ := checked
    obtain ⟨there, -⟩ := Reader.run_require_eq_ok_iff.mp required
    rw [run_readVectorHeader_of_length there] at h
    split_ifs at h with negative
    cases h
    refine ⟨input.take 8, ⟨?_, ?_⟩, (List.take_append_drop 8 input).symm⟩
    · rw [List.length_take]
      omega
    · rw [List.take_take, Int.toNat_of_nonneg (by omega)]
      rfl
  · rintro ⟨bytes, ⟨length, count⟩, rfl⟩
    have first : (bytes ++ rest).take 4 = bytes.take 4 := List.take_append_of_le_length (by omega)
    rw [run_readVectorHeader_of_length (by simp; omega), first, count, if_neg (by omega),
      Int.toNat_natCast, List.drop_left' length]

theorem run_requireRecords_eq_ok_iff :
    (requireRecords k n).run input = .ok () rest ↔
      rest = input ∧ ∀ width, k.recordWidth = some width → n * width ≤ input.length := by
  unfold requireRecords
  cases fixed : k.recordWidth with
  | none =>
    simp only [EStateM.run_pure, EStateM.Result.ok.injEq, true_and, reduceCtorEq, false_imp_iff,
      implies_true, and_true]
    exact eq_comm
  | some width =>
    simp only [Reader.run_require_eq_ok_iff, Option.some.injEq, forall_eq']
    exact and_comm

/-- The bytes are a vector of the words: two counts in eight bytes, the first of which is the number
of words, and a record of each word. -/
def IsVector (bytes : List UInt8) (words : List (Word k)) : Prop :=
  ∃ (header : List UInt8) (records : List (List UInt8)), header.length = 8 ∧
    Bytes.signedBigEndian (header.take 4) = words.length ∧
    List.Forall₂ Word.IsRecord records words ∧ bytes = header ++ records.flatten

theorem accepts_readVector : (readVector k).Accepts IsVector := by
  intro input words rest
  have elements {n : Nat} {left : List UInt8} :
      (readWords (Word.decodeDap k) n).run left = .ok words rest ↔ _ :=
    run_readWords_eq_ok_iff (Word.accepts_decodeDap k)
  simp only [readVector, run_bind_eq_ok_iff]
  constructor
  · rintro ⟨n, _, first, _, left, checked, taken⟩
    obtain ⟨rfl, -⟩ := run_requireRecords_eq_ok_iff.mp checked
    obtain ⟨header, ⟨length, count⟩, rfl⟩ := (accepts_readVectorHeader _ _ _).mp first
    obtain ⟨rfl, records, spelled, rfl⟩ := elements.mp taken
    exact ⟨_, ⟨header, records, length, count, spelled, rfl⟩, (List.append_assoc _ _ _).symm⟩
  · rintro ⟨_, ⟨header, records, length, count, spelled, rfl⟩, rfl⟩
    have first := (accepts_readVectorHeader _ _ (records.flatten ++ rest)).mpr
      ⟨header, ⟨length, count⟩, rfl⟩
    rw [List.append_assoc]
    refine ⟨_, _, first, (), _, run_requireRecords_eq_ok_iff.mpr ⟨rfl, fun width fixed => ?_⟩,
      elements.mpr ⟨rfl, records, spelled, rfl⟩⟩
    rw [List.length_append,
        Bytes.length_flatten (fun _ _ => Word.length_of_isRecord fixed) spelled]
    exact Nat.le_add_right _ _

/-- What a successful reading comes to. -/
theorem run_internalizeDap_eq_ok_iff {t : Nat} (formed : d.WellFormed) :
    (internalizeDap env).run ⟨d, input⟩ = .ok t ⟨e, rest⟩ ↔
      ∃ words, (readVector k).run input = .ok words rest ∧ d.HasRoom env words.length ∧
        t = input.length - rest.length ∧
        e = holding (d.words ++ words) (capacityFor d.capacity (d.size + words.length)) d.flag := by
  simp only [internalizeDap, run_bind_eq_ok_iff]
  constructor
  · rintro ⟨_, _, ⟨⟩, words, ⟨f, left⟩, read, _, ⟨g, last⟩, fed, _, _, ⟨⟩, ⟨⟩⟩
    obtain ⟨taken, rfl⟩ := Feed.run_ofReader_eq_ok_iff.mp read
    obtain ⟨added, rfl⟩ := Feed.run_ofEdit_eq_ok_iff.mp fed
    obtain ⟨room, rfl⟩ := (run_addWords_eq_ok_iff formed).mp added
    exact ⟨words, taken, room, rfl, rfl⟩
  · rintro ⟨words, taken, room, rfl, rfl⟩
    have added := (run_addWords_eq_ok_iff formed).mpr ⟨room, rfl⟩
    exact ⟨_, _, rfl, words, _, Feed.run_ofReader_eq_ok_iff.mpr ⟨taken, rfl⟩, (), _,
      Feed.run_ofEdit_eq_ok_iff.mpr ⟨added, rfl⟩, _, _, rfl, rfl⟩

end Column

end Columnar

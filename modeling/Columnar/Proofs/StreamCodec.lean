import Columnar.Proofs.Histories
import Columnar.Proofs.Reading

/-!
# The stream codec

A column is written as the encodings of its words, unless one of them is too long a text, and
reading takes just such encodings off the input. So both directions lose nothing: what was written
is read back, and what was read is what would be written.
-/

namespace Columnar

namespace Word

/-- True of the texts of more than 65535 bytes in UTF-8. -/
def TooLong : {k : Kind} → Word k → Prop
  | .string, s => 65535 < String.utf8ByteSize s
  | _, _ => False

theorem exists_encode_iff {k : Kind} {w : Word k} :
    (∃ bytes, w.encode = .ok bytes) ↔ ¬w.TooLong := by
  cases k with
  | string =>
    simp only [encode_string_eq_ok_iff, TooLong]
    constructor
    · rintro ⟨bytes, short, -⟩
      omega
    · intro short
      exact ⟨_, by omega, rfl⟩
  | _ => exact ⟨fun _ => id, fun _ => ⟨_, rfl⟩⟩

theorem exists_mapM_encode_iff {k : Kind} {words : List (Word k)} :
    (∃ chunks, words.mapM encode = .ok chunks) ↔ ∀ w ∈ words, ¬w.TooLong := by
  induction words with
  | nil => exact ⟨by simp, fun _ => ⟨[], rfl⟩⟩
  | cons w rest ih =>
    rw [List.forall_mem_cons, ← ih, ← exists_encode_iff]
    constructor
    · rintro ⟨chunks, encoded⟩
      obtain ⟨b, more, first, others, -⟩ := mapM_cons_eq_ok_iff.mp encoded
      exact ⟨⟨b, first⟩, more, others⟩
    · rintro ⟨⟨b, first⟩, more, others⟩
      exact ⟨_, mapM_cons_eq_ok_iff.mpr ⟨b, more, first, others, rfl⟩⟩

theorem length_encode {k : Kind} (fixed : k ≠ .string) {w : Word k} {bytes : List UInt8}
    (h : w.encode = .ok bytes) : bytes.length = k.streamWidth := by
  cases k with
  | string => exact absurd rfl fixed
  | signed | unsigned | floating | char =>
    cases h
    exact Bytes.length_bigEndian _ _

theorem length_flatten_encode {k : Kind} (fixed : k ≠ .string) {words : List (Word k)}
    {chunks : List (List UInt8)} (h : words.mapM encode = .ok chunks) :
    chunks.flatten.length = words.length * k.streamWidth := by
  have spelled : List.Forall₂ (fun bytes (w : Word k) => w.encode = .ok bytes) chunks words :=
    mapM_eq_ok_iff.mp h
  exact Bytes.length_flatten (fun _ _ => length_encode fixed) spelled

end Word

namespace Column

variable {k : Kind} {env : Environment} {c d e : Column k} {n : Nat} {words : List (Word k)}
  {input rest : List UInt8}

theorem run_writeTo (out : List UInt8) :
    c.writeTo.run out =
      match c.words.mapM Word.encode with
      | .ok chunks => .ok ((chunks.getLast?.map List.length).getD 0) (out ++ chunks.flatten)
      | .error e => .error e out := by
  rw [writeTo, EStateM.run_bind]
  cases c.words.mapM Word.encode <;> rfl

theorem streamWidth_le (k : Kind) : k.streamWidth ≤ 8 := by
  rcases k with ((_ | _ | _ | _) | (_ | _ | _ | _) | (_ | _) | _ | _) <;> decide

theorem run_requireElements_eq_ok_iff :
    (requireElements k n).run input = .ok () rest ↔
      rest = input ∧ n * k.streamWidth < 2 ^ 64 ∧ n * k.streamWidth ≤ input.length := by
  unfold requireElements
  by_cases text : k.streamWidth = 0
  · rw [if_neg (by simpa using text)]
    simp [text, eq_comm]
  rw [if_pos text]
  by_cases large : 2 ^ 64 ≤ n * k.streamWidth
  · rw [if_pos large]
    constructor
    · rintro ⟨⟩
    · rintro ⟨-, small, -⟩
      omega
  · rw [if_neg large, Reader.run_require_eq_ok_iff]
    have small : n * k.streamWidth < 2 ^ 64 := Nat.not_le.mp large
    simp only [small, true_and]
    exact and_comm

theorem run_readStream_eq_ok_iff :
    (readStream k n).run input = .ok words rest ↔
      n * k.streamWidth < 2 ^ 64 ∧ words.length = n ∧
        ∃ chunks, words.mapM Word.encode = .ok chunks ∧ input = chunks.flatten ++ rest := by
  have elements : (readWords (Word.decode k) n).run input = .ok words rest ↔ _ :=
    run_readWords_of_inverts (Word.inverts_decode k)
  rw [readStream, run_bind_eq_ok_iff]
  constructor
  · rintro ⟨_, left, checked, taken⟩
    obtain ⟨rfl, countable, -⟩ := run_requireElements_eq_ok_iff.mp checked
    exact ⟨countable, elements.mp taken⟩
  · rintro ⟨countable, length, chunks, encoded, rfl⟩
    -- The check for enough bytes refuses nothing that the words themselves would not.
    have there : n * k.streamWidth ≤ (chunks.flatten ++ rest).length := by
      by_cases fixed : k = .string
      · subst fixed
        simp [Kind.streamWidth]
      · rw [List.length_append, Word.length_flatten_encode fixed encoded, length]
        exact Nat.le_add_right _ _
    exact ⟨(), _, run_requireElements_eq_ok_iff.mpr ⟨rfl, countable, there⟩,
      elements.mpr ⟨length, chunks, encoded, rfl⟩⟩

/-- What a successful reading comes to. -/
theorem run_readFrom_eq_ok_iff (formed : d.WellFormed) :
    (readFrom env n).run ⟨d, input⟩ = .ok () ⟨e, rest⟩ ↔
      d.HasRoom env n ∧ ∃ new chunks, new.length = n ∧ new.mapM Word.encode = .ok chunks ∧
        input = chunks.flatten ++ rest ∧
        e = holding (d.words ++ new) (capacityFor d.capacity (d.size + n)) d.flag := by
  rw [readFrom, run_bind_eq_ok_iff]
  constructor
  · rintro ⟨new, ⟨f, left⟩, read, fed⟩
    obtain ⟨taken, rfl⟩ := Feed.run_ofReader_eq_ok_iff.mp read
    obtain ⟨added, rfl⟩ := Feed.run_ofEdit_eq_ok_iff.mp fed
    obtain ⟨-, rfl, chunks, encoded, rfl⟩ := run_readStream_eq_ok_iff.mp taken
    obtain ⟨room, rfl⟩ := (run_addWords_eq_ok_iff formed).mp added
    exact ⟨room, new, chunks, rfl, encoded, rfl, rfl⟩
  · rintro ⟨room, new, chunks, rfl, encoded, rfl, rfl⟩
    have few := room.size_le
    unfold maxSize at few
    -- Where there is room for the elements, their bytes can be counted.
    have countable : new.length * k.streamWidth < 2 ^ 64 := by
      have narrow := Nat.mul_le_mul_left new.length (streamWidth_le k)
      omega
    have taken : (readStream k new.length).run (chunks.flatten ++ rest) = .ok new rest :=
      run_readStream_eq_ok_iff.mpr ⟨countable, rfl, chunks, encoded, rfl⟩
    have added := (run_addWords_eq_ok_iff formed).mpr ⟨room, rfl⟩
    exact ⟨new, _, Feed.run_ofReader_eq_ok_iff.mpr ⟨taken, rfl⟩,
      Feed.run_ofEdit_eq_ok_iff.mpr ⟨added, rfl⟩⟩

end Column

/-! ## Well-formed input -/

/-- Input that begins with `n` records of a big-endian 16-bit length and so many bytes of UTF-8. -/
inductive TextRecords : Nat → List UInt8 → Prop where
  | zero (rest : List UInt8) : TextRecords 0 rest
  | succ {n : Nat} {high low : UInt8} {text rest : List UInt8}
    (counted : high.toNat * 256 + low.toNat = text.length)
    (valid : (ByteArray.mk text.toArray).IsValidUTF8) (more : TextRecords n rest) :
    TextRecords (n + 1) (high :: low :: (text ++ rest))

/-- Input from which `n` words of a kind can be read. -/
def Readable (k : Kind) (n : Nat) (input : List UInt8) : Prop :=
  match k with
  | .string => TextRecords n input
  | k => n * k.streamWidth ≤ input.length

theorem Bytes.bigEndian_two (n : Nat) :
    bigEndian 2 n = [UInt8.ofNat (n / 256), UInt8.ofNat n] := rfl

/-- Two bytes are the big-endian form of the number that they spell. -/
theorem Bytes.bigEndian_two_bytes (high low : UInt8) :
    bigEndian 2 (high.toNat * 256 + low.toNat) = [high, low] := by
  have spelled := bigEndian_ofBigEndian [high, low]
  have value : ofBigEndian [high, low] = high.toNat * 256 + low.toNat := by
    simp only [ofBigEndian, List.reverse_cons, List.reverse_nil, List.nil_append,
      List.cons_append, ofLittleEndian]
    omega
  rwa [value] at spelled

/-- Input that begins with the encodings of `n` words. -/
def BeginsWith (k : Kind) (n : Nat) (input : List UInt8) : Prop :=
  ∃ (words : List (Word k)) (chunks : List (List UInt8)) (rest : List UInt8),
    words.length = n ∧ words.mapM Word.encode = .ok chunks ∧ input = chunks.flatten ++ rest

theorem beginsWith_iff {k : Kind} {n : Nat} {input : List UInt8} :
    BeginsWith k n input ↔
      Bytes.BeginsWith (fun bytes (w : Word k) => w.encode = .ok bytes) n input := by
  simp only [BeginsWith, Bytes.BeginsWith, mapM_eq_ok_iff]

namespace BeginsWith

variable {k : Kind} {n : Nat} {input rest : List UInt8}

theorem of_textRecords (h : TextRecords n input) : BeginsWith .string n input := by
  rw [beginsWith_iff]
  induction h with
  | zero rest => exact .zero
  | @succ n high low text rest counted valid more ih =>
    obtain ⟨cs, rfl⟩ := Utf8.isValidUTF8_iff.mp valid
    have size : (String.ofList cs).utf8ByteSize = (Utf8.encode cs).length := by
      rw [← Utf8.length_encode_toList, String.toList_ofList]
    have encoded : Word.encode (k := .string) (String.ofList cs) =
        .ok (high :: low :: Utf8.encode cs) := by
      refine Word.encode_string_eq_ok_iff.mpr ⟨?_, ?_⟩
      · have := high.toNat_lt
        have := low.toNat_lt
        omega
      · rw [size, ← counted, Bytes.bigEndian_two_bytes, String.toList_ofList]
        rfl
    exact ih.succ encoded

theorem textRecords (h : BeginsWith .string n input) : TextRecords n input := by
  obtain ⟨words, chunks, rest, rfl, encoded, rfl⟩ := h
  induction words generalizing chunks with
  | nil => exact .zero _
  | cons s words ih =>
    obtain ⟨bytes, more, first, others, rfl⟩ := mapM_cons_eq_ok_iff.mp encoded
    obtain ⟨short, rfl⟩ := Word.encode_string_eq_ok_iff.mp first
    have valid : (ByteArray.mk (Utf8.encode s.toList).toArray).IsValidUTF8 :=
      Utf8.isValidUTF8_iff.mpr ⟨s.toList, rfl⟩
    have counted : (UInt8.ofNat (s.utf8ByteSize / 256)).toNat * 256 +
        (UInt8.ofNat s.utf8ByteSize).toNat = (Utf8.encode s.toList).length := by
      rw [Utf8.length_encode_toList]
      simp
      omega
    have record := TextRecords.succ counted valid (ih more others)
    rw [Bytes.bigEndian_two, List.flatten_cons, List.append_assoc, List.append_assoc]
    exact record

/-- Every byte sequence of the right length is the encoding of a word. -/
theorem exists_encode (fixed : k ≠ .string) (length : input.length = k.streamWidth) :
    ∃ w : Word k, w.encode = .ok input := by
  cases k with
  | string => exact absurd rfl fixed
  | signed w =>
    exact ⟨BitVec.ofNat w.bits (Bytes.ofBigEndian input),
      congrArg Except.ok (Bytes.bigEndian_ofNat_ofBigEndian w.bits_eq length)⟩
  | unsigned w =>
    exact ⟨BitVec.ofNat w.bits (Bytes.ofBigEndian input),
      congrArg Except.ok (Bytes.bigEndian_ofNat_ofBigEndian w.bits_eq length)⟩
  | floating p =>
    exact ⟨BitVec.ofNat p.bits (Bytes.ofBigEndian input),
      congrArg Except.ok (Bytes.bigEndian_ofNat_ofBigEndian p.bits_eq length)⟩
  | char =>
    exact ⟨BitVec.ofNat 16 (Bytes.ofBigEndian input),
      congrArg Except.ok (Bytes.bigEndian_ofNat_ofBigEndian rfl length)⟩

end BeginsWith

theorem beginsWith_iff_readable {k : Kind} {n : Nat} {input : List UInt8} :
    BeginsWith k n input ↔ Readable k n input := by
  cases k with
  | string => exact ⟨BeginsWith.textRecords, BeginsWith.of_textRecords⟩
  | signed | unsigned | floating | char =>
    rw [beginsWith_iff]
    exact ⟨Bytes.BeginsWith.length_le fun _ _ => Word.length_encode (by simp),
      Bytes.BeginsWith.of_length_le fun _ => BeginsWith.exists_encode (by simp)⟩

namespace Column

variable {k : Kind} {env : Environment} {c d : Column k}

/-- The stream codec on reachable columns.

Writing fails, and leaves the output alone, exactly when an element is too long a text; otherwise it
appends bytes from which the same elements are read back, whatever follows them. What was read is
what would be written again. And where there is room, reading succeeds exactly on readable input. -/
theorem Reachable.stream_lossless (hc : Reachable env c) (hd : Reachable env d) :
    ((∃ w ∈ c.words, w.TooLong) → ∀ out, ∃ e, c.writeTo.run out = .error e out) ∧
    ((∀ w ∈ c.words, ¬w.TooLong) → ∃ bytes last,
      (∀ out, c.writeTo.run out = .ok last (out ++ bytes)) ∧
      (d.HasRoom env c.size → ∀ tail, ∃ d',
        (readFrom env c.size).run ⟨d, bytes ++ tail⟩ = .ok () ⟨d', tail⟩ ∧
          d'.words = d.words ++ c.words)) ∧
    (∀ n input rest d', (readFrom env n).run ⟨d, input⟩ = .ok () ⟨d', rest⟩ →
      ∃ new bytes, new.length = n ∧ d'.words = d.words ++ new ∧ input = bytes ++ rest ∧
        ∀ r : Column k, r.words = new → ∀ out, ∃ last,
          r.writeTo.run out = .ok last (out ++ bytes)) ∧
    ∀ n, d.HasRoom env n → ∀ input,
      (∃ d' rest, (readFrom env n).run ⟨d, input⟩ = .ok () ⟨d', rest⟩) ↔ Readable k n input := by
  refine ⟨?_, ?_, ?_, ?_⟩
  · rintro ⟨w, inside, long⟩ out
    rw [run_writeTo]
    cases encoded : c.words.mapM Word.encode with
    | error e => exact ⟨e, rfl⟩
    | ok chunks => exact absurd long (Word.exists_mapM_encode_iff.mp ⟨chunks, encoded⟩ w inside)
  · intro short
    obtain ⟨chunks, encoded⟩ := Word.exists_mapM_encode_iff.mpr short
    refine ⟨chunks.flatten, _, fun out => by rw [run_writeTo, encoded], fun room tail => ?_⟩
    refine ⟨_, (run_readFrom_eq_ok_iff hd.wellFormed).mpr
      ⟨room, c.words, chunks, hc.wellFormed.length_words, encoded, rfl, rfl⟩, ?_⟩
    exact words_holding
  · intro n input rest d' h
    obtain ⟨-, new, chunks, length, encoded, rfl, rfl⟩ :=
      (run_readFrom_eq_ok_iff hd.wellFormed).mp h
    refine ⟨new, chunks.flatten, length, words_holding, rfl, fun r same out => ?_⟩
    rw [run_writeTo, same, encoded]
    exact ⟨_, rfl⟩
  · intro n room input
    rw [← beginsWith_iff_readable]
    constructor
    · rintro ⟨d', rest, h⟩
      obtain ⟨-, new, chunks, length, encoded, rfl, -⟩ :=
        (run_readFrom_eq_ok_iff hd.wellFormed).mp h
      exact ⟨new, chunks, rest, length, encoded, rfl⟩
    · rintro ⟨new, chunks, rest, length, encoded, rfl⟩
      exact ⟨_, rest, (run_readFrom_eq_ok_iff hd.wellFormed).mpr
        ⟨room, new, chunks, length, encoded, rfl, rfl⟩⟩

/-- One text of two bytes, written and read into an empty column. -/
theorem stream_of_one_text :
    ∃ bytes last, (∀ out, (ofSlots #["\u00e9"] 1 : Column .string).writeTo.run out =
        .ok last (out ++ bytes)) ∧
      ∀ tail, ∃ d, (readFrom {} 1).run ⟨Column.empty {} .string, bytes ++ tail⟩ =
        .ok () ⟨d, tail⟩ ∧ d.words = ["\u00e9"] := by
  have written : Reachable {} (ofSlots #["\u00e9"] 1 : Column .string) := .ofWords ["\u00e9"] rfl
  have target : Reachable {} (Column.empty {} .string) := .empty .string rfl
  obtain ⟨-, forward, -, -⟩ := Reachable.stream_lossless written target
  have short : ∀ w ∈ (ofSlots #["\u00e9"] 1 : Column .string).words, ¬w.TooLong := by
    simp only [ofSlots, Column.words, List.take_succ_cons, List.take_zero, List.forall_mem_cons,
      Word.TooLong]
    decide
  obtain ⟨bytes, last, writes, reads⟩ := forward short
  refine ⟨bytes, last, writes, reads ⟨by decide, ?_⟩⟩
  intro full
  exact absurd full (by decide)

end Column

end Columnar

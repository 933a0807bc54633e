import Columnar.Column.Stream
import Columnar.Proofs.Growth
import Columnar.Proofs.Utf8

/-!
# Readers as inverses

A reader inverts an encoding when it succeeds on exactly those inputs that begin with an encoding,
returns what is encoded there, and leaves what follows it. The property passes from a reader of
single words to the reader of a given number of them.
-/

namespace Columnar

namespace Bytes

theorem ofBigEndian_lt (bytes : List UInt8) : ofBigEndian bytes < 256 ^ bytes.length := by
  have written := ofBigEndian_bigEndian bytes.length (ofBigEndian bytes)
  rw [bigEndian_ofBigEndian] at written
  rw [written]
  exact Nat.mod_lt _ (Nat.pow_pos (by decide))

theorem two_pow_eq {bits width : Nat} (size : bits = 8 * width) : 2 ^ bits = 256 ^ width := by
  rw [size, Nat.pow_mul]

/-- A number is recovered from as many bytes as it needs. -/
theorem ofNat_ofBigEndian_bigEndian {bits width : Nat} (size : bits = 8 * width) (x : BitVec bits) :
    BitVec.ofNat bits (ofBigEndian (bigEndian width x.toNat)) = x := by
  have small : x.toNat < 256 ^ width := by
    rw [← two_pow_eq size]
    exact x.isLt
  rw [ofBigEndian_bigEndian, Nat.mod_eq_of_lt small, BitVec.ofNat_toNat, BitVec.setWidth_eq]

/-- Bytes are recovered from the number that they spell. -/
theorem bigEndian_ofNat_ofBigEndian {bits width : Nat} (size : bits = 8 * width)
    {bytes : List UInt8} (length : bytes.length = width) :
    bigEndian width (BitVec.ofNat bits (ofBigEndian bytes)).toNat = bytes := by
  have small : ofBigEndian bytes < 2 ^ bits := by
    rw [two_pow_eq size, ← length]
    exact ofBigEndian_lt bytes
  rw [BitVec.toNat_ofNat, Nat.mod_eq_of_lt small, ← length, bigEndian_ofBigEndian]

end Bytes

namespace Reader

variable {α : Type}

@[simp] theorem run_require (what : String) (count : Nat) (input : List UInt8) :
    (require what count).run input =
      if count ≤ input.length then .ok () input
      else .error (.invalidData (.truncated what count input.length)) input := by
  rw [require, EStateM.run_bind, EStateM.run_get]
  simp only [hasAtLeast_eq_decide]
  by_cases enough : count ≤ input.length <;> simp [enough]

theorem run_require_eq_ok_iff {what : String} {count : Nat} {input rest : List UInt8} {u : Unit} :
    (require what count).run input = .ok u rest ↔ count ≤ input.length ∧ rest = input := by
  rw [run_require]
  by_cases enough : count ≤ input.length
  · simp [enough, eq_comm]
  · simp [enough]

@[simp] theorem run_take (count : Nat) (input : List UInt8) :
    (take count).run input = .ok (input.take count) (input.drop count) := rfl

@[simp] theorem run_word (bits : Nat) (input : List UInt8) :
    (word bits).run input =
      .ok (BitVec.ofNat bits (Bytes.ofBigEndian (input.take (bits / 8)))) (input.drop (bits / 8)) :=
  rfl

/-- The reader succeeds on the inputs that begin with the bytes of a value, and takes just these. -/
def Accepts (r : Reader α) (spells : List UInt8 → α → Prop) : Prop :=
  ∀ input a rest, r.run input = .ok a rest ↔ ∃ bytes, spells bytes a ∧ input = bytes ++ rest

/-- The reader succeeds on the inputs that begin with an encoding, and takes just that. -/
def Inverts (r : Reader α) (encode : α → Except ColumnError (List UInt8)) : Prop :=
  ∀ input a rest, r.run input = .ok a rest ↔
    ∃ bytes, encode a = .ok bytes ∧ input = bytes ++ rest

end Reader

namespace Word

@[simp] theorem run_readFixed (what : String) (bits : Nat) (input : List UInt8) :
    (readFixed what bits).run input =
      if bits / 8 ≤ input.length then
        .ok (BitVec.ofNat bits (Bytes.ofBigEndian (input.take (bits / 8)))) (input.drop (bits / 8))
      else .error (.invalidData (.truncated what (bits / 8) input.length)) input := by
  rw [readFixed, EStateM.run_bind, Reader.run_require]
  by_cases enough : bits / 8 ≤ input.length <;> simp [enough]

theorem inverts_readFixed (what : String) {bits width : Nat} (size : bits = 8 * width) :
    (readFixed what bits).Inverts fun x => .ok (Bytes.bigEndian width x.toNat) := by
  intro input x rest
  have bytes : bits / 8 = width := by omega
  rw [run_readFixed, bytes]
  constructor
  · intro h
    split at h
    case isTrue enough =>
      cases h
      refine ⟨_, rfl, ?_⟩
      have length : (input.take width).length = width := by grind
      rw [Bytes.bigEndian_ofNat_ofBigEndian size length, List.take_append_drop]
    case isFalse => cases h
  · rintro ⟨_, ⟨⟩, rfl⟩
    have front : (Bytes.bigEndian width x.toNat).length = width := Bytes.length_bigEndian _ _
    rw [if_pos (by simp), List.take_left' front, List.drop_left' front,
      Bytes.ofNat_ofBigEndian_bigEndian size]

theorem run_readText (input : List UInt8) :
    readText.run input =
      match (readFixed "string length" 16).run input with
      | .error e rest => .error e rest
      | .ok length rest =>
        if length.toNat ≤ rest.length then
          match Utf8.decode (rest.take length.toNat) with
          | .ok cs => .ok (String.ofList cs) (rest.drop length.toNat)
          | .error fault => .error (.invalidData (.notUtf8 fault)) (rest.drop length.toNat)
        else .error (.invalidData (.truncated "string" length.toNat rest.length)) rest := by
  rw [readText, EStateM.run_bind]
  cases (readFixed "string length" 16).run input with
  | error e rest => rfl
  | ok length rest =>
    by_cases enough : length.toNat ≤ rest.length
    · simp only [EStateM.run_bind, Reader.run_require, enough, if_true, Reader.run_take]
      cases Utf8.decode (rest.take length.toNat) <;> rfl
    · simp [enough]

theorem encode_string_eq_ok_iff {s : String} {bytes : List UInt8} :
    encode (k := .string) s = .ok bytes ↔
      s.utf8ByteSize < 65536 ∧
        bytes = Bytes.bigEndian 2 s.utf8ByteSize ++ Utf8.encode s.toList := by
  simp only [encode, Utf8.length_encode_toList]
  by_cases short : s.utf8ByteSize < 65536
  · simp [short, eq_comm]
  · simp [short]

theorem inverts_readText : readText.Inverts (encode (k := .string)) := by
  have header := inverts_readFixed "string length" (show 16 = 8 * 2 from rfl)
  intro input s rest
  rw [run_readText]
  constructor
  · intro h
    split at h
    · cases h
    rename_i length mid counted
    obtain ⟨_, ⟨⟩, rfl⟩ := (header _ _ _).mp counted
    split at h
    case isFalse => cases h
    rename_i enough
    split at h
    case h_2 => cases h
    rename_i cs decoded
    cases h
    have spelled := Utf8.decode_eq_ok_iff.mp decoded
    have size : (String.ofList cs).utf8ByteSize = length.toNat := by
      rw [← Utf8.length_encode_toList, String.toList_ofList, ← spelled]
      simp [enough]
    refine ⟨_, encode_string_eq_ok_iff.mpr ⟨?_, rfl⟩, ?_⟩
    · rw [size]
      exact length.isLt
    · rw [size, String.toList_ofList, ← spelled, List.append_assoc, List.take_append_drop]
  · rintro ⟨bytes, encoded, rfl⟩
    obtain ⟨short, rfl⟩ := encode_string_eq_ok_iff.mp encoded
    have number : (BitVec.ofNat 16 s.utf8ByteSize).toNat = s.utf8ByteSize :=
      Nat.mod_eq_of_lt short
    have size := Utf8.length_encode_toList s
    have counted := (header (Bytes.bigEndian 2 s.utf8ByteSize ++ (Utf8.encode s.toList ++ rest))
      (BitVec.ofNat 16 s.utf8ByteSize) _).mpr ⟨_, rfl, by rw [number]⟩
    rw [List.append_assoc, counted]
    simp only [number, List.take_left' size, List.drop_left' size, Utf8.decode_eq_ok_iff.mpr rfl,
      String.ofList_toList]
    rw [if_pos (by simp [size])]

/-- Every word is read back as it was written, and nothing else is read. -/
theorem inverts_decode : (k : Kind) → (decode k).Inverts (encode (k := k))
  | .signed w => inverts_readFixed _ w.bits_eq
  | .unsigned w => inverts_readFixed _ w.bits_eq
  | .floating p => inverts_readFixed _ p.bits_eq
  | .char => inverts_readFixed _ (show 16 = 8 * 2 from rfl)
  | .string => inverts_readText

end Word

/-! ## Lists -/

theorem mapM_cons_eq_ok_iff {ε α β : Type} {f : α → Except ε β} {a : α} {l : List α} {bs : List β} :
    (a :: l).mapM f = .ok bs ↔ ∃ b more, f a = .ok b ∧ l.mapM f = .ok more ∧ bs = b :: more := by
  rw [List.mapM_cons]
  constructor
  · intro h
    obtain ⟨b, first, rest⟩ := bind_eq_ok.mp h
    obtain ⟨more, others, ⟨⟩⟩ := bind_eq_ok.mp rest
    exact ⟨b, more, first, others, rfl⟩
  · rintro ⟨b, more, first, others, rfl⟩
    rw [first, others]
    rfl

/-- Each element is transformed by itself. -/
theorem mapM_eq_ok_iff {ε α β : Type} {f : α → Except ε β} {l : List α} {bs : List β} :
    l.mapM f = .ok bs ↔ List.Forall₂ (fun b a => f a = .ok b) bs l := by
  induction l generalizing bs with
  | nil =>
    rw [List.forall₂_nil_right_iff]
    exact ⟨fun h => (Except.ok.inj h).symm, fun h => congrArg Except.ok h.symm⟩
  | cons a l ih =>
    rw [mapM_cons_eq_ok_iff, List.forall₂_cons_right_iff]
    simp only [ih]

namespace Bytes

/-- Input that begins with the bytes of `n` values. -/
def BeginsWith {α : Type} (spells : List UInt8 → α → Prop) (n : Nat) (input : List UInt8) : Prop :=
  ∃ (values : List α) (chunks : List (List UInt8)) (rest : List UInt8),
    values.length = n ∧ List.Forall₂ spells chunks values ∧ input = chunks.flatten ++ rest

variable {α : Type} {spells : List UInt8 → α → Prop} {n width : Nat} {input rest bytes : List UInt8}
  {values : List α} {chunks : List (List UInt8)}

theorem length_flatten (fixed : ∀ bytes a, spells bytes a → bytes.length = width)
    (spelled : List.Forall₂ spells chunks values) :
    chunks.flatten.length = values.length * width := by
  induction spelled with
  | nil => simp
  | cons first others ih =>
    rw [List.flatten_cons, List.length_append, fixed _ _ first, ih, List.length_cons, Nat.succ_mul,
      Nat.add_comm]

namespace BeginsWith

theorem zero : BeginsWith spells 0 input := ⟨[], [], input, rfl, .nil, rfl⟩

theorem succ {a : α} (first : spells bytes a) (more : BeginsWith spells n rest) :
    BeginsWith spells (n + 1) (bytes ++ rest) := by
  obtain ⟨values, chunks, left, rfl, others, rfl⟩ := more
  exact ⟨a :: values, bytes :: chunks, left, rfl, .cons first others, by simp⟩

/-- Where all byte sequences of one length are values, it takes no more than enough of them. -/
theorem of_length_le (every : ∀ bytes, bytes.length = width → ∃ a, spells bytes a)
    (there : n * width ≤ input.length) : BeginsWith spells n input := by
  induction n generalizing input with
  | zero => exact .zero
  | succ n ih =>
    rw [Nat.succ_mul] at there
    obtain ⟨a, first⟩ := every (input.take width) (by grind)
    have more : BeginsWith spells n (input.drop width) := ih (by grind)
    have whole := more.succ first
    rwa [List.take_append_drop] at whole

theorem length_le (fixed : ∀ bytes a, spells bytes a → bytes.length = width)
    (h : BeginsWith spells n input) : n * width ≤ input.length := by
  obtain ⟨values, chunks, rest, rfl, spelled, rfl⟩ := h
  rw [List.length_append, length_flatten fixed spelled]
  exact Nat.le_add_right _ _

end BeginsWith

end Bytes

namespace Column

variable {k : Kind} {r : Reader (Word k)} {spells : List UInt8 → Word k → Prop}
  {encode : Word k → Except ColumnError (List UInt8)} {n : Nat} {words : List (Word k)}
  {input rest : List UInt8}

theorem run_readWordsAfter_eq_ok_iff (accepts : r.Accepts spells) {done : List (Word k)} :
    (readWordsAfter r done n).run input = .ok words rest ↔
      ∃ more chunks, words = done.reverse ++ more ∧ more.length = n ∧
        List.Forall₂ spells chunks more ∧ input = chunks.flatten ++ rest := by
  -- The words read so far grow as the input shrinks, so both vary in the induction.
  induction n generalizing done input with
  | zero =>
    constructor
    · rintro ⟨⟩
      exact ⟨[], [], by simp, rfl, .nil, rfl⟩
    · rintro ⟨more, chunks, rfl, none, spelled, rfl⟩
      obtain rfl := List.length_eq_zero_iff.mp none
      cases spelled
      simp [readWordsAfter]
  | succ n ih =>
    rw [readWordsAfter, run_bind_eq_ok_iff]
    constructor
    · rintro ⟨w, left, first, others⟩
      obtain ⟨bytes, written, rfl⟩ := (accepts _ _ _).mp first
      obtain ⟨more, chunks, rfl, length, spelled, rfl⟩ := ih.mp others
      exact ⟨w :: more, bytes :: chunks, by simp, by simp [length], .cons written spelled, by simp⟩
    · rintro ⟨more, chunks, rfl, length, spelled, rfl⟩
      cases spelled with
      | nil => cases length
      | @cons bytes w chunks more written others =>
        have first := (accepts _ _ (chunks.flatten ++ rest)).mpr ⟨bytes, written, rfl⟩
        rw [List.flatten_cons, List.append_assoc]
        exact ⟨w, _, first, ih.mpr ⟨more, chunks, by simp, by simpa using length, others, rfl⟩⟩

/-- What is read as `n` words is their bytes one after the other. -/
theorem run_readWords_eq_ok_iff (accepts : r.Accepts spells) :
    (readWords r n).run input = .ok words rest ↔
      words.length = n ∧ ∃ chunks, List.Forall₂ spells chunks words ∧
        input = chunks.flatten ++ rest := by
  rw [readWords, run_readWordsAfter_eq_ok_iff accepts]
  constructor
  · rintro ⟨more, chunks, rfl, length, spelled, rfl⟩
    exact ⟨length, chunks, spelled, rfl⟩
  · rintro ⟨length, chunks, spelled, rfl⟩
    exact ⟨words, chunks, rfl, length, spelled, rfl⟩

theorem run_readWords_of_inverts (inverts : r.Inverts encode) :
    (readWords r n).run input = .ok words rest ↔
      words.length = n ∧ ∃ chunks, words.mapM encode = .ok chunks ∧
        input = chunks.flatten ++ rest := by
  have accepts : r.Accepts fun bytes w => encode w = .ok bytes := inverts
  simp only [run_readWords_eq_ok_iff accepts, mapM_eq_ok_iff]

end Column

end Columnar

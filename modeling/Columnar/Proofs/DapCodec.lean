import Columnar.Proofs.DapReader

/-!
# The DAP codec

A word is written as a record of its image, which differs from the word in characters beyond
ISO-8859-1 only, and takes a multiple of four bytes. So a column is written as a vector of images,
and the reader, which accepts every vector, takes just that.
-/

namespace Columnar

namespace Word

/-- What is left of a word in its record: a question mark for every character that ISO-8859-1 does
not have. -/
def latin1Image : {k : Kind} → Word k → Word k
  | .char, u => if BitVec.toNat u ≤ 0xFF then u else 0x3F#16
  | .string, s => String.ofList ((String.toList s).map fun c => if c.toNat ≤ 0xFF then c else '?')
  | _, w => w

/-- True unless the characters of a text are too many to be counted in its record. -/
def FitsRecord : {k : Kind} → Word k → Prop
  | .string, s => String.length s < 2 ^ 31
  | _, _ => True

/-! ## Records -/

theorem setWidth_signExtend {w v : Nat} (x : BitVec w) (h : w ≤ v) :
    (x.signExtend v).setWidth w = x := by
  ext i hi
  simp [BitVec.getElem_signExtend, show i < v by omega, hi]

theorem exists_high_encodeDapInteger (w : IntWidth) (x : BitVec w.bits) :
    ∃ high : List UInt8, high.length = 4 - w.bytes ∧
      encodeDapInteger w x = high ++ Bytes.bigEndian w.bytes x.toNat := by
  unfold encodeDapInteger
  by_cases narrow : w.bytes < 4
  · have low : w.bits ≤ 32 := by
      rw [w.bits_eq]
      omega
    rw [if_pos narrow, bigEndian_slot narrow, setWidth_signExtend x low]
    exact ⟨_, Bytes.length_bigEndian _ _, rfl⟩
  · rw [if_neg narrow]
    exact ⟨[], by rw [List.length_nil]; omega, rfl⟩

theorem toNat_latin1 (code : Nat) : (latin1 code).toNat = if code ≤ 0xFF then code else 0x3F := by
  unfold latin1
  split
  · simp
    omega
  · rfl

theorem ofNat_latin1 (u : CodeUnit) :
    BitVec.ofNat 16 (latin1 u.toNat).toNat = latin1Image (k := .char) u := by
  simp only [toNat_latin1, latin1Image]
  split
  · exact BitVec.ofNat_toNat 16 u
  · rfl

theorem ofNat_toNat_latin1 (c : Char) :
    Char.ofNat (latin1 c.toNat).toNat = if c.toNat ≤ 0xFF then c else '?' := by
  rw [toNat_latin1]
  split
  · exact Char.ofNat_toNat c
  · rfl

theorem isRecord_encodeDap_text (s : String) (fits : s.length < 2 ^ 31) :
    IsRecord (k := .string) (encodeDap (k := .string) s) (latin1Image (k := .string) s) := by
  have count : (s.toList.map (latin1 ·.toNat)).length = s.length := by
    rw [List.length_map, String.length_toList]
  have counted : s.length % 2 ^ 32 = s.length := Nat.mod_eq_of_lt (by omega)
  refine ⟨s.toList.map (latin1 ·.toNat), List.replicate (padding s.length) 0, ?_, ?_, ?_, ?_⟩
  · rwa [count]
  · rw [List.length_replicate, count]
  · simp only [encodeDap, count, counted]
  · rw [List.map_map]
    exact congrArg String.ofList (List.map_congr_left fun c _ => (ofNat_toNat_latin1 c).symm)

/-- A word is written as a record of its image. -/
theorem isRecord_encodeDap {k : Kind} (w : Word k) (fits : w.FitsRecord) :
    IsRecord w.encodeDap w.latin1Image := by
  cases k with
  | signed v => exact exists_high_encodeDapInteger v w
  | unsigned v => exact exists_high_encodeDapInteger v w
  | floating p => exact rfl
  | char => exact ⟨_, [0, 0, 0], rfl, rfl, (ofNat_latin1 w).symm⟩
  | string => exact isRecord_encodeDap_text w fits

theorem length_encodeDap {k : Kind} {width : Nat} (fixed : k.recordWidth = some width)
    (w : Word k) : w.encodeDap.length = width := by
  cases k with
  | string => cases fixed
  | signed | unsigned | floating | char =>
    exact length_of_isRecord fixed (isRecord_encodeDap w trivial)

theorem four_dvd_length_encodeDap {k : Kind} (w : Word k) : 4 ∣ w.encodeDap.length := by
  obtain rfl | four | eight := recordWidth_cases k
  · simp [encodeDap, padding]
    omega
  · rw [length_encodeDap four]
  · rw [length_encodeDap eight]
    decide

end Word

namespace Column

variable {k : Kind} {env : Environment} {c d : Column k}

/-! ## Vectors -/

theorem four_dvd_length_flatMap (words : List (Word k)) :
    4 ∣ (words.flatMap Word.encodeDap).length := by
  induction words with
  | nil => simp
  | cons w rest ih =>
    rw [List.flatMap_cons, List.length_append]
    exact Nat.dvd_add (Word.four_dvd_length_encodeDap w) ih

theorem signedBigEndian_vectorHeader {count : Nat} (small : count < 2 ^ 31) :
    Bytes.signedBigEndian ((vectorHeader count).take 4) = count := by
  have four := Bytes.length_bigEndian 4 count
  rw [vectorHeader, List.take_left' four, (Bytes.signedBigEndian_eq_iff four).mpr ⟨small, rfl⟩]

/-- Words are written as a vector of their images. -/
theorem isVector_vectorHeader {words : List (Word k)} (fits : ∀ w ∈ words, w.FitsRecord)
    (small : words.length < 2 ^ 31) :
    IsVector (vectorHeader words.length ++ words.flatMap Word.encodeDap)
      (words.map Word.latin1Image) := by
  refine ⟨vectorHeader words.length, words.map Word.encodeDap, ?_, ?_, ?_, ?_⟩
  · simp [vectorHeader]
  · rw [signedBigEndian_vectorHeader small, List.length_map]
  · rw [List.forall₂_map_left_iff, List.forall₂_map_right_iff, List.forall₂_same]
    exact fun w inside => Word.isRecord_encodeDap w (fits w inside)
  · rw [List.flatMap_def]

theorem run_readVector_append {words : List (Word k)} (fits : ∀ w ∈ words, w.FitsRecord)
    (small : words.length < 2 ^ 31) (rest : List UInt8) :
    (readVector k).run (vectorHeader words.length ++ words.flatMap Word.encodeDap ++ rest) =
      .ok (words.map Word.latin1Image) rest :=
  (accepts_readVector _ _ _).mpr ⟨_, isVector_vectorHeader fits small, rfl⟩

theorem run_externalizeDap (small : c.size < 2 ^ 31) (out : List UInt8) :
    c.externalizeDap.run out =
      .ok (vectorHeader c.size ++ c.words.flatMap Word.encodeDap).length
        (out ++ (vectorHeader c.size ++ c.words.flatMap Word.encodeDap)) := by
  rw [externalizeDap, if_neg (by omega)]
  rfl

/-- Elements that were read are added in one step, and the bytes taken are counted. -/
theorem run_internalizeDap {words : List (Word k)} {input rest : List UInt8} (formed : d.WellFormed)
    (room : d.HasRoom env words.length) (taken : (readVector k).run input = .ok words rest) :
    ∃ e, (internalizeDap env).run ⟨d, input⟩ = .ok (input.length - rest.length) ⟨e, rest⟩ ∧
      e.words = d.words ++ words :=
  ⟨_, (run_internalizeDap_eq_ok_iff formed).mpr ⟨words, taken, room, rfl, rfl⟩, words_holding⟩

/-- The DAP codec on reachable columns.

Writing returns the number of bytes written, a multiple of four. Whatever follows these bytes,
reading them takes just as many, leaves what follows, and appends the image of every element, unless
a text has more characters than its record can count. -/
theorem Reachable.dap_roundtrip (hc : Reachable env c) (hd : Reachable env d) :
    ∃ bytes, (∀ out, c.externalizeDap.run out = .ok bytes.length (out ++ bytes)) ∧
      4 ∣ bytes.length ∧
      (d.HasRoom env c.size → (∀ w ∈ c.words, w.FitsRecord) → ∀ tail, ∃ d',
        (internalizeDap env).run ⟨d, bytes ++ tail⟩ = .ok bytes.length ⟨d', tail⟩ ∧
          d'.words = d.words ++ c.words.map Word.latin1Image) := by
  have size := hc.wellFormed.length_words
  have small : c.size < 2 ^ 31 := by
    have largest := hc.wellFormed.size_le_maxSize
    unfold maxSize at largest
    omega
  refine ⟨_, fun out => run_externalizeDap small out, ?_, fun room fits tail => ?_⟩
  · have records := four_dvd_length_flatMap c.words
    simp only [vectorHeader, List.length_append, Bytes.length_bigEndian]
    omega
  · have taken := run_readVector_append fits (by omega) tail
    rw [size] at taken
    have granted : d.HasRoom env (c.words.map Word.latin1Image).length := by
      rwa [List.length_map, size]
    have fed := run_internalizeDap hd.wellFormed granted taken
    rwa [List.length_append, Nat.add_sub_cancel] at fed

/-- A unit that ISO-8859-1 has, and one that comes back as a question mark. -/
theorem dap_of_two_units :
    ∃ bytes, (∀ out, (ofSlots #[0xE9#16, 0x20AC#16] 2 : Column .char).externalizeDap.run out =
        .ok bytes.length (out ++ bytes)) ∧ 4 ∣ bytes.length ∧
      ∀ tail, ∃ d, (internalizeDap {}).run ⟨Column.empty {} .char, bytes ++ tail⟩ =
        .ok bytes.length ⟨d, tail⟩ ∧ d.words = [0xE9#16, 0x3F#16] := by
  have written : Reachable {} (ofSlots #[0xE9#16, 0x20AC#16] 2 : Column .char) :=
    .ofWords [0xE9#16, 0x20AC#16] rfl
  have target : Reachable {} (Column.empty {} .char) := .empty .char rfl
  obtain ⟨bytes, writes, words, reads⟩ := Reachable.dap_roundtrip written target
  refine ⟨bytes, writes, words, reads ⟨by decide, ?_⟩ (by intro w _; trivial)⟩
  intro full
  exact absurd full (by decide)

end Column

end Columnar

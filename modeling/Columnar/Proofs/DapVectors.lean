import Columnar.Proofs.DapReader

/-!
# The input of the DAP reader

Whatever the bytes, the reader accepts a vector exactly if there are a header with a count that is
not negative, so many complete records behind it, and room for so many elements. What it appends is
what the first count and the payload of each record say: the second count, the padding of a record
and the bits above the width of a narrow integer are read past.

## Main definitions

* `Column.PaddedTexts`: input that begins with so many texts behind their lengths.
* `Column.HoldsRecords`: input that begins with so many complete records.

## Main statements

* `Column.Reachable.reads_vectors`: what the reader accepts and what it appends.
-/

namespace Columnar

namespace Column

variable {k : Kind} {env : Environment} {d : Column k} {n : Nat} {input : List UInt8}

/-! ## Complete records -/

/-- Input that begins with `n` texts of a length that is not negative and so many bytes with their
padding. -/
inductive PaddedTexts : Nat → List UInt8 → Prop where
  | zero (rest : List UInt8) : PaddedTexts 0 rest
  | succ {n : Nat} {length text pad rest : List UInt8} (four : length.length = 4)
    (counted : Bytes.signedBigEndian length = text.length)
    (padded : pad.length = Word.padding text.length) (more : PaddedTexts n rest) :
    PaddedTexts (n + 1) (length ++ text ++ pad ++ rest)

/-- Input that begins with `n` complete records of a kind. -/
def HoldsRecords (k : Kind) (n : Nat) (input : List UInt8) : Prop :=
  match k.recordWidth with
  | some width => n * width ≤ input.length
  | none => PaddedTexts n input

theorem PaddedTexts.beginsWith (h : PaddedTexts n input) :
    Bytes.BeginsWith (Word.IsRecord (k := .string)) n input := by
  induction h with
  | zero rest => exact .zero
  | succ four counted padded more ih =>
    obtain ⟨small, rfl⟩ := (Bytes.signedBigEndian_eq_iff four).mp counted
    exact ih.succ ⟨_, _, small, padded, rfl, rfl⟩

theorem paddedTexts_of_beginsWith (h : Bytes.BeginsWith (Word.IsRecord (k := .string)) n input) :
    PaddedTexts n input := by
  obtain ⟨words, records, rest, rfl, spelled, rfl⟩ := h
  induction spelled with
  | nil => exact .zero _
  | cons record others ih =>
    obtain ⟨text, pad, small, padded, rfl, -⟩ := record
    have four := Bytes.length_bigEndian 4 text.length
    rw [List.flatten_cons, List.append_assoc]
    exact .succ four ((Bytes.signedBigEndian_eq_iff four).mpr ⟨small, rfl⟩) padded ih

theorem beginsWith_records_iff :
    Bytes.BeginsWith (Word.IsRecord (k := k)) n input ↔ HoldsRecords k n input := by
  unfold HoldsRecords
  cases fixed : k.recordWidth with
  | some width =>
    exact ⟨Bytes.BeginsWith.length_le fun _ _ => Word.length_of_isRecord fixed,
      Bytes.BeginsWith.of_length_le fun _ => Word.exists_isRecord fixed⟩
  | none =>
    obtain rfl | four | eight := Word.recordWidth_cases k
    · exact ⟨paddedTexts_of_beginsWith, PaddedTexts.beginsWith⟩
    · cases fixed.symm.trans four
    · cases fixed.symm.trans eight

/-- The DAP reader on any input, adding to a reachable column.

It succeeds exactly if the input has the eight bytes of the counts, the first of which is not
negative, so many complete records behind them, and the column has room for so many elements. It
then takes a vector, leaves the rest, and appends the words of the vector. The column that it makes
depends on the words alone, whichever vector of them the input begins with. -/
theorem Reachable.reads_vectors (h : Reachable env d) :
    (∀ input, (∃ t d' rest, (internalizeDap env).run ⟨d, input⟩ = .ok t ⟨d', rest⟩) ↔
      8 ≤ input.length ∧ ∃ n : Nat, Bytes.signedBigEndian (input.take 4) = n ∧
        HoldsRecords k n (input.drop 8) ∧ d.HasRoom env n) ∧
    (∀ input t d' rest, (internalizeDap env).run ⟨d, input⟩ = .ok t ⟨d', rest⟩ →
      ∃ bytes words, IsVector bytes words ∧ input = bytes ++ rest ∧ t = bytes.length ∧
        d'.words = d.words ++ words) ∧
    ∀ words : List (Word k), d.HasRoom env words.length →
      ∃ d', d'.words = d.words ++ words ∧ d'.flag = d.flag ∧
        ∀ bytes rest, IsVector bytes words →
          (internalizeDap env).run ⟨d, bytes ++ rest⟩ = .ok bytes.length ⟨d', rest⟩ := by
  have formed := h.wellFormed
  refine ⟨fun input => ⟨?_, ?_⟩, ?_, ?_⟩
  · rintro ⟨t, d', rest, done⟩
    obtain ⟨words, taken, room, -, -⟩ := (run_internalizeDap_eq_ok_iff formed).mp done
    obtain ⟨_, ⟨header, records, length, count, spelled, rfl⟩, rfl⟩ :=
      (accepts_readVector _ _ _).mp taken
    rw [List.append_assoc]
    refine ⟨by simp; omega, words.length, ?_, ?_, room⟩
    · rw [List.take_append_of_le_length (by omega), count]
    · rw [List.drop_left' length, ← beginsWith_records_iff]
      exact ⟨words, records, rest, rfl, spelled, rfl⟩
  · rintro ⟨there, n, count, held, room⟩
    obtain ⟨words, records, rest, rfl, spelled, behind⟩ := beginsWith_records_iff.mpr held
    have length : (input.take 8).length = 8 := by
      rw [List.length_take]
      omega
    have first : (input.take 8).take 4 = input.take 4 := by
      rw [List.take_take]
      rfl
    have vector : IsVector (input.take 8 ++ records.flatten) words :=
      ⟨_, records, length, by rw [first, count], spelled, rfl⟩
    have whole : input = input.take 8 ++ records.flatten ++ rest := by
      rw [List.append_assoc, ← behind, List.take_append_drop]
    exact ⟨_, _, rest, (run_internalizeDap_eq_ok_iff formed).mpr
      ⟨words, (accepts_readVector _ _ _).mpr ⟨_, vector, whole⟩, room, rfl, rfl⟩⟩
  · intro input t d' rest done
    obtain ⟨words, taken, room, rfl, rfl⟩ := (run_internalizeDap_eq_ok_iff formed).mp done
    obtain ⟨bytes, vector, rfl⟩ := (accepts_readVector _ _ _).mp taken
    exact ⟨bytes, words, vector, rfl, by simp, words_holding⟩
  · intro words room
    refine ⟨holding (d.words ++ words) (capacityFor d.capacity (d.size + words.length)) d.flag,
      words_holding, flag_holding, fun bytes rest vector => ?_⟩
    exact (run_internalizeDap_eq_ok_iff formed).mpr
      ⟨words, (accepts_readVector _ _ _).mpr ⟨bytes, vector, rfl⟩, room, by simp, rfl⟩

/-- Two bytes in slots with other bits, behind counts that disagree, and a byte that is left. -/
theorem vector_of_two_bytes :
    ∃ d, (internalizeDap {}).run ⟨Column.empty {} .byte,
        [0, 0, 0, 2, 0x80, 0, 0, 9] ++ [1, 2, 3, 0xFF] ++ [0xFF, 0, 0, 5] ++ [7]⟩ =
          .ok 16 ⟨d, [7]⟩ ∧
      d.words = [0xFF#8, 5#8] := by
  have target : Reachable {} (Column.empty {} .byte) := .empty .byte rfl
  have vector : IsVector (k := .byte) ([0, 0, 0, 2, 0x80, 0, 0, 9] ++ [1, 2, 3, 0xFF] ++
      [0xFF, 0, 0, 5]) [0xFF#8, 5#8] :=
    ⟨[0, 0, 0, 2, 0x80, 0, 0, 9], [[1, 2, 3, 0xFF], [0xFF, 0, 0, 5]], rfl, rfl,
      .cons ⟨[1, 2, 3], rfl, rfl⟩ (.cons ⟨[0xFF, 0, 0], rfl, rfl⟩ .nil), rfl⟩
  obtain ⟨d, words, -, reads⟩ := target.reads_vectors.2.2 [0xFF#8, 5#8]
    ⟨by decide, fun full => absurd full (by decide)⟩
  exact ⟨d, reads _ [7] vector, words⟩

end Column

end Columnar

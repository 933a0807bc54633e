import Columnar.Column.Render
import Columnar.Proofs.Decimals
import Columnar.Proofs.Promotion

/-!
# Integers written and read back

Words of integer kinds are written as decimal texts, which a list of items keeps apart and which are
read as the same integers. What is written for a missing element is no number. So a column that is
made from the texts of the elements, whether they came as a list or as a column of texts, holds the
integers of the original column.
-/

namespace Columnar

variable {k : Kind} {env : Environment}

/-- No integer kind goes beyond 128 bits. -/
theorem Kind.fitsWide_of_inRange (integer : k.isInteger = true) {v : Int} (inside : k.InRange v) :
    Binary.fitsWide v = true := by
  have table : ∀ k ∈ all, -(2 ^ 127) ≤ k.least ∧ k.greatest < 2 ^ 127 := by decide
  obtain ⟨least, greatest⟩ := table k k.mem_all
  obtain ⟨lower, upper⟩ := (inRange_iff integer).mp inside
  simp only [Binary.fitsWide, Bool.and_eq_true, decide_eq_true_eq]
  omega

theorem Kind.ne_string_of_isInteger (integer : k.isInteger = true) : k ≠ .string := by
  rintro rfl
  cases integer

/-- The text of an integer, or the one that stands for a missing one. -/
def integerText (blank : String) : Option Int → String
  | none => blank
  | some v => toString v

/-! ## Single integers -/

section

variable (integer : k.isInteger = true)
include integer

/-- An integer has the same text in exchange, in JSON and in a display. -/
theorem Word.texts_of_toInt {w : Word k} {v : Int} (quote : List Char → List Char)
    (value : w.toInt = some v) :
    w.valueText = toString v ∧ w.jsonText quote = toString v ∧ w.displayText = toString v := by
  cases k, integer using Kind.integerCases with
  | signed b =>
    cases value
    exact ⟨rfl, rfl, rfl⟩
  | unsigned b =>
    cases value
    exact ⟨rfl, rfl, rfl⟩

variable {blank : String} (nothing : Numeral.integerOfText blank.toList = none)
include nothing

/-- The text of an integer is read as the word of the integer, unless it is missing. -/
theorem ofText_integerText {v : Option Int} (fits : ∀ n, v = some n → k.InRange n) :
    Word.ofText k (integerText blank v) = v.bind (Word.ofInt k) := by
  rw [Word.ofText_eq integer]
  cases v with
  | none => rw [integerText, nothing]
  | some n =>
    have wide := Kind.fitsWide_of_inRange integer (fits n rfl)
    rw [integerText, Numeral.integerOfText_toString wide]

theorem map_ofText_integerText {vs : List (Option Int)} (fits : ∀ v, some v ∈ vs → k.InRange v) :
    (vs.map (integerText blank)).map (Word.ofText k) = vs.map (·.bind (Word.ofInt k)) := by
  rw [List.map_map]
  refine List.map_congr_left fun v listed => ofText_integerText integer nothing fun n value => ?_
  exact fits n (value ▸ listed)

end

namespace Column

variable {c : Column k} {w : Word k}

/-! ## Lists of integers -/

theorem isPlain_null : Text.IsPlain "null".toList := by
  have bare : ("null".toList.all fun c => !Text.isWhiteSpace c) = true := by decide
  exact ⟨by decide, by decide, by decide, by simpa using bare⟩

/-- The items of a list of integers have the words of these. -/
theorem items_integerText (integer : k.isInteger = true) {vs : List (Option Int)}
    (fits : ∀ v, some v ∈ vs → k.InRange v) :
    (Text.splitCsv (", ".intercalate (vs.map (integerText "null")))).map (Word.ofText k) =
      vs.map (·.bind (Word.ofInt k)) := by
  have plain (s : String) (listed : s ∈ vs.map (integerText "null")) : Text.IsPlain s.toList := by
    obtain ⟨v, -, rfl⟩ := List.mem_map.mp listed
    cases v with
    | none => exact isPlain_null
    | some n => exact Numeral.isPlain_toString n
  have nothing : Numeral.integerOfText "null".toList = none := by decide
  rw [Text.splitCsv_intercalate _ plain, map_ofText_integerText integer nothing fits]

section

variable (integer : k.isInteger = true)
include integer

/-- A list of JSON literals has the integers of the column. -/
theorem items_jsonList (quote : List Char → List Char) :
    (Text.splitCsv (c.jsonList quote)).map (Word.ofText k) =
      c.integers.map (·.bind (Word.ofInt k)) := by
  have texts : c.words.map (c.jsonOf quote) = c.integers.map (integerText "null") := by
    rw [integers, List.map_map]
    refine List.map_congr_left fun w _ => ?_
    obtain ⟨v, value, -⟩ := w.exists_toInt integer
    rw [Function.comp_apply, jsonOf, integerOf, value, (Word.texts_of_toInt integer quote value).2.1]
    split <;> rfl
  rw [jsonList, texts]
  exact items_integerText integer fun v => inRange_of_mem_integers integer

/-- A display has all words of the column, those of missing elements included. -/
theorem items_display : (Text.splitCsv c.display).map (Word.ofText k) = c.words.map some := by
  have texts :
      c.words.map Word.displayText = (c.words.map Word.toInt).map (integerText "null") := by
    rw [List.map_map]
    refine List.map_congr_left fun w _ => ?_
    obtain ⟨v, value, -⟩ := w.exists_toInt integer
    rw [Function.comp_apply, value, (Word.texts_of_toInt integer id value).2.2, integerText]
  have fits (v : Int) (listed : some v ∈ c.words.map Word.toInt) : k.InRange v := by
    obtain ⟨w, -, value⟩ := List.mem_map.mp listed
    obtain ⟨n, same, inside⟩ := w.exists_toInt integer
    cases value.symm.trans same
    exact inside
  rw [display, texts, items_integerText integer fits, List.map_map]
  exact List.map_congr_left fun w _ => Word.ofInt_toInt integer w

/-! ## Columns of texts -/

/-- An integer enters a text column as its text, and a missing one as the empty text. -/
theorem convertWord_to_string :
    c.convertWord .string w = some (integerText "" (c.integerOf w)) := by
  have route : k.route .string = .text := by cases k <;> first | rfl | cases integer
  have different := Kind.ne_string_of_isInteger integer
  obtain ⟨v, value, -⟩ := w.exists_toInt integer
  unfold convertWord integerOf
  split
  case isTrue => rw [Word.crossMissing, if_pos route, integerText, Word.ofText]
  case isFalse =>
    rw [Word.cross, dif_neg different, route, (Word.texts_of_toInt integer id value).1, value]
    rfl

/-- A text enters an integer column as what it reads as, and so does a missing one. -/
theorem convertWord_of_string {t : Column .string} (u : Word .string) :
    t.convertWord k u = Word.ofText k u := by
  have different := (Kind.ne_string_of_isInteger integer).symm
  have route : Kind.string.route k = .text := Kind.route_to_integer integer different
  unfold convertWord
  split
  case isTrue missing =>
    have empty : u = "" := eq_of_beq (Bool.and_eq_true_iff.mp missing).2
    rw [Word.crossMissing, if_pos route, empty]
  case isFalse =>
    rw [Word.cross, dif_neg different, route]
    rfl

/-- The column of the texts, converted back, is made of the integers. -/
theorem converted_of_string (formed : c.WellFormed)
    (after : (AnyColumn.converted ⟨c⟩ .string).WellFormed) :
    AnyColumn.converted ⟨AnyColumn.converted ⟨c⟩ .string⟩ k =
      taking (c.integers.map (·.bind (Word.ofInt k))) := by
  have nothing : Numeral.integerOfText "".toList = none := by decide
  have texts : (AnyColumn.converted ⟨c⟩ .string).words = c.integers.map (integerText "") := by
    rw [AnyColumn.converted_eq_taking formed, taking, words_holding, integers, List.map_map,
      List.map_map]
    exact List.map_congr_left fun w _ => congrArg stored (convertWord_to_string integer)
  rw [AnyColumn.converted_eq_taking after]
  refine congrArg taking ((List.map_congr_left fun u _ => convertWord_of_string integer u).trans ?_)
  rw [texts, map_ofText_integerText integer nothing fun v => inRange_of_mem_integers integer]

end

/-! ## Round trips -/

/-- A missing element is written as null. -/
theorem jsonAt_of_missingAt {i : Nat} (quote : List Char → List Char)
    (missing : c.missingAt i = .ok true) : c.jsonAt quote i = .ok "null" := by
  obtain ⟨w, here, reads⟩ := bind_eq_ok.mp missing
  have reads : c.readsMissing w = true := Except.ok.inj reads
  exact bind_eq_ok.mpr ⟨w, here, congrArg Except.ok (if_pos reads)⟩

theorem lt_size_of_missingAt {i : Nat} (formed : c.WellFormed)
    (missing : c.missingAt i = .ok true) : i < c.size := by
  obtain ⟨-, w, here, -⟩ := (missingAt_eq_true_iff formed).mp missing
  obtain ⟨inside, -⟩ := List.getElem?_eq_some_iff.mp here
  rwa [formed.length_words] at inside

/-- Storing the integers of a column yields an equal one. -/
theorem alike_taking {d : Column k} (integer : k.isInteger = true) (formed : c.WellFormed)
    (after : d.WellFormed) (made : d = taking (c.integers.map (·.bind (Word.ofInt k)))) :
    d.integers = c.integers ∧ AnyColumn.sameAs ⟨d⟩ ⟨c⟩ = true := by
  have same : d.integers = c.integers := by
    rw [made]
    exact integers_taking integer (fun v => inRange_of_mem_integers integer)
      (none_not_mem_integers integer)
  exact ⟨same, sameAs_iff.mpr (alike_of_integers integer after formed same)⟩

/-- A column of the texts has as many elements, and converted back it equals the original one. -/
theorem Reachable.sameAs_of_convertTo_string (h : Reachable env c) (integer : k.isInteger = true)
    {y : AnyColumn} (made : AnyColumn.convertTo env ⟨c⟩ .string = .ok y) :
    y.kind = .string ∧ y.column.size = c.size ∧
      ∀ z, y.convertTo env k = .ok z → z.sameAs ⟨c⟩ = true := by
  have formed := h.wellFormed
  have after := h.convertTo (a := ⟨c⟩) .string made
  have different := Kind.ne_string_of_isInteger integer
  rw [AnyColumn.convertTo_of_ne different.symm formed] at made
  split at made
  case h_2 => cases made
  case h_1 =>
    cases made
    refine ⟨rfl, by simp [AnyColumn.converted, formed.length_words], fun z back => ?_⟩
    have restored := (after.convertTo k back).wellFormed
    rw [AnyColumn.convertTo_of_ne different after.wellFormed] at back
    split at back
    case h_2 => cases back
    case h_1 =>
      cases back
      exact (alike_taking integer formed restored
        (converted_of_string integer formed after.wellFormed)).2

/-- An integer column that is written as a list of JSON literals and read again, or converted to a
column of texts and back, equals itself; its missing elements are written as null and missing again.
A display of it is read as its words. All this is refused exactly if there is no memory for a buffer
for so many elements. How texts are quoted makes no difference. -/
theorem Reachable.text_roundtrips (h : Reachable env c) (integer : k.isInteger = true)
    (quote : List Char → List Char) :
    ((∃ e, Column.ofCsv env k (c.jsonList quote) = .error e) ↔ env.Refuses k c.size) ∧
      (∀ d, Column.ofCsv env k (c.jsonList quote) = .ok d → AnyColumn.sameAs ⟨d⟩ ⟨c⟩ = true ∧
        ∀ i, c.missingAt i = .ok true →
          c.jsonAt quote i = .ok "null" ∧ d.missingAt i = .ok true) ∧
      ((∃ e, Column.ofCsv env k c.display = .error e) ↔ env.Refuses k c.size) ∧
      (∀ d, Column.ofCsv env k c.display = .ok d → d.words = c.words) ∧
      ((∃ e, AnyColumn.convertTo env ⟨c⟩ .string = .error e) ↔ env.Refuses .string c.size) ∧
      ∀ y, AnyColumn.convertTo env ⟨c⟩ .string = .ok y →
        y.kind = .string ∧ y.column.size = c.size ∧
          ((∃ e, y.convertTo env k = .error e) ↔ env.Refuses k c.size) ∧
          ∀ z, y.convertTo env k = .ok z → z.sameAs ⟨c⟩ = true := by
  have formed := h.wellFormed
  have sizes := formed.length_words
  have few := formed.length_words_le
  have different := Kind.ne_string_of_isInteger integer
  have literals := items_jsonList (c := c) integer quote
  have literal_count : (c.integers.map (·.bind (Word.ofInt k))).length = c.size := by
    simp [integers, sizes]
  have shown := items_display (c := c) integer
  have shown_count : (c.words.map some).length = c.size := by simp [sizes]
  refine ⟨?_, fun d made => ?_, ?_, fun d made => ?_, ?_, fun y made => ?_⟩
  · rw [ofCsv_eq_error_iff literals (by omega), literal_count]
  · have after := (Reachable.ofCsv _ made).wellFormed
    obtain ⟨same, equal⟩ :=
      alike_taking integer formed after (eq_of_ofCsv literals (by omega) made)
    refine ⟨equal, fun i missing => ⟨jsonAt_of_missingAt quote missing, ?_⟩⟩
    have inside := lt_size_of_missingAt formed missing
    have here := sameIntegerAt_of_integers integer integer formed after same.symm inside
    exact here.missing.trans missing
  · rw [ofCsv_eq_error_iff shown (by omega), shown_count]
  · rw [eq_of_ofCsv shown (by omega) made, taking, words_holding, List.map_map]
    exact List.map_id _
  · rw [AnyColumn.convertTo_eq_error_iff formed]
    exact and_iff_right different.symm
  · obtain ⟨kinds, size, restored⟩ := h.sameAs_of_convertTo_string integer made
    refine ⟨kinds, size, ?_, restored⟩
    have after := (h.convertTo (a := ⟨c⟩) .string made).wellFormed
    rw [AnyColumn.convertTo_eq_error_iff after, size]
    exact and_iff_right fun same => different (same.trans kinds)

/-- The greatest long while it is missing, and the least one, whose text is the longest. -/
theorem roundtrips_of_extreme_longs :
    let longs : Column .long :=
      Operation.raiseFlag.after {} (ofSlots #[BitVec.intMax 64, BitVec.intMin 64] 2)
    longs.display = "9223372036854775807, -9223372036854775808" ∧
      longs.jsonList Text.jsonLiteral = "null, -9223372036854775808" ∧
      ∃ d, Column.ofCsv {} .long (longs.jsonList Text.jsonLiteral) = .ok d ∧
        AnyColumn.sameAs ⟨d⟩ ⟨longs⟩ = true ∧ d.missingAt 0 = .ok true := by
  intro longs
  have reached : Reachable {} longs :=
    .operated .raiseFlag (.ofWords [BitVec.intMax 64, BitVec.intMin 64] rfl)
  obtain ⟨fails, restored, -⟩ := Reachable.text_roundtrips reached rfl Text.jsonLiteral
  obtain ⟨d, made⟩ := Environment.exists_eq_ok fails.mp
  obtain ⟨equal, missing⟩ := restored d made
  exact ⟨by decide +kernel, by decide +kernel, d, made, equal, (missing 0 rfl).2⟩

end Column

end Columnar

import Columnar.Proofs.ScalarCopies

/-!
# Scalars as snapshots of elements

A scalar that was taken out of a column answers every question as its element does: the payload
holds a floating number as a double and any other word as what it stands for, and its text goes back
through the kind that it came from. Stored over its own element it leaves an equal column, in which
at most one missing word has become another one.
-/

namespace Columnar

variable {k : Kind} {env : Environment}

namespace Scalar

/-! ## Answers of a scalar -/

theorem isMissing_ofWord (w : Word k) (missing : Bool) :
    (ofWord w missing).isMissing = missing := by
  cases missing with
  | true => rfl
  | false => cases k <;> rfl

theorem toInt_ofWord (w : Word k) (missing : Bool) :
    (ofWord w missing).toInt = if missing then none else w.toInt := by
  cases missing with
  | true => rfl
  | false => cases k <;> rfl

theorem toDouble_ofWord (w : Word k) (missing : Bool) :
    (ofWord w missing).toDouble = if missing then Binary.nan else w.toDouble := by
  cases missing with
  | true => rfl
  | false => cases k <;> rfl

/-- A scalar has no word of its own kind when it is missing, and otherwise the one that it was. -/
theorem toWord_ofWord (w : Word k) {missing : Bool}
    (plain : k.missingFixed = true → missing = false → w.isSentinel = false) :
    (ofWord w missing).toWord k = if missing then none else some w := by
  cases missing with
  | true => rfl
  | false => exact Word.throughScalar_self w fun fixed => plain fixed rfl

theorem text_ofWord (w : Word k) {missing : Bool}
    (plain : k.missingFixed = true → missing = false → w.isSentinel = false) :
    (ofWord w missing).text = if missing then "" else w.valueText := by
  have word : (ofWord w missing).toWord (ofWord w missing).kind = _ := toWord_ofWord w plain
  rw [text, word]
  cases missing <;> rfl

end Scalar

namespace Column

variable {c : Column k} {i : Nat} {v w : Word k}

/-- An element may be replaced by one that compares equal. -/
theorem alike_set {words : List (Word k)} {cap : Nat} {flag : Bool} (here : words[i]? = some w)
    (equal : v.compare w = .eq) :
    (holding (words.set i v) cap flag).Alike (holding words cap flag) := by
  refine ⟨by simp, fun j a b ha hb => compareSeen_eq_iff.mpr ?_⟩
  rw [words_holding] at ha hb
  by_cases place : i = j
  · subst place
    obtain ⟨inside, -⟩ := List.getElem?_eq_some_iff.mp here
    rw [List.getElem?_set_self inside] at ha
    cases ha
    cases here.symm.trans hb
    exact ⟨equal, congrArg (flag && ·) (Word.isSentinel_eq_of_compare equal)⟩
  · rw [List.getElem?_set_ne place] at ha
    cases ha.symm.trans hb
    exact ⟨Std.ReflCmp.compare_self, rfl⟩

/-- An element that is stored over itself, by the sentinel if it is missing, leaves an equal
column. -/
theorem exists_run_setConverted (formed : c.WellFormed) (here : c.words[i]? = some w) :
    ∃ d, (setConverted i (if c.readsMissing w then none else some w)).run c = .ok () d ∧
      AnyColumn.sameAs ⟨d⟩ ⟨c⟩ = true ∧ d.flag = c.flag := by
  obtain ⟨words, cap, flag, length, fits, raised, rfl⟩ := wellFormed_iff.mp formed
  rw [words_holding] at here
  obtain ⟨inside, -⟩ := List.getElem?_eq_some_iff.mp here
  rw [run_setConverted, if_pos inside]
  refine ⟨_, rfl, ?_⟩
  rw [sameAs_iff]
  cases reads : (holding words cap flag).readsMissing w with
  | true =>
    -- any two missing words compare equal, and the flag is up already
    obtain ⟨up, sentinel⟩ := Bool.and_eq_true_iff.mp reads
    have raised : flag = true := up
    subst raised
    exact ⟨alike_set here (Word.compare_eq_of_isSentinel Word.isSentinel_sentinel sentinel), rfl⟩
  | false =>
    simp only [Bool.false_eq_true, if_false, Option.isNone_some, Bool.or_false]
    exact ⟨alike_set here Std.ReflCmp.compare_self, rfl⟩

/-- The scalar of an element agrees with the element in whether it is missing, as an integer, as a
double and as text. Storing it over its own element succeeds and leaves an equal column with the
same flag. -/
theorem Reachable.scalar_faithful (h : Reachable env c) (inside : i < c.size) :
    ∃ s, c.scalarAt i = .ok s ∧ c.missingAt i = .ok s.isMissing ∧ c.integerAt i = .ok s.toInt ∧
      c.doubleAt i = .ok s.toDouble ∧ c.textAt i = .ok s.text ∧
      ∃ d, (setScalar i s).run c = .ok () d ∧ AnyColumn.sameAs ⟨d⟩ ⟨c⟩ = true ∧
        d.flag = c.flag := by
  have formed := h.wellFormed
  obtain ⟨w, here⟩ : ∃ w, c.words[i]? = some w := by
    rw [← formed.length_words] at inside
    exact ⟨_, List.getElem?_eq_getElem inside⟩
  have read := (wordAt_eq_ok_iff formed).mpr here
  have plain (fixed : k.missingFixed = true) (present : c.readsMissing w = false) :
      w.isSentinel = false := isSentinel_eq_false_of_readsMissing formed present fixed
  refine ⟨Scalar.ofWord w (c.readsMissing w), ?_, ?_, ?_, ?_, ?_, ?_⟩
  · rw [scalarAt, read]
    rfl
  · rw [missingAt, read, Scalar.isMissing_ofWord]
    rfl
  · rw [integerAt, read, Scalar.toInt_ofWord]
    rfl
  · rw [doubleAt, read, Scalar.toDouble_ofWord]
    rfl
  · rw [textAt, read, Scalar.text_ofWord w plain]
    rfl
  · rw [setScalar, Scalar.toWord_ofWord w plain]
    exact exists_run_setConverted formed here

/-- A quiet NaN with a payload, which goes back as the sentinel of its kind. -/
theorem scalar_of_nan_payload :
    let floats : Column .float := ofSlots #[0x7FC00001#32] 1
    0 < floats.size ∧ ∃ s, floats.scalarAt 0 = .ok s ∧ floats.textAt 0 = .ok s.text ∧
      ∃ d, (setScalar 0 s).run floats = .ok () d ∧ AnyColumn.sameAs ⟨d⟩ ⟨floats⟩ = true := by
  intro floats
  have reached : Reachable {} floats := .ofWords [0x7FC00001#32] rfl
  have inside : 0 < floats.size := by decide
  obtain ⟨s, taken, -, -, -, text, d, done, same, -⟩ := reached.scalar_faithful inside
  exact ⟨inside, s, taken, text, d, done, same⟩

end Column

end Columnar

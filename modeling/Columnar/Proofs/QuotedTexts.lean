import Columnar.Proofs.Escapes
import Columnar.Proofs.Splitting

/-!
# Texts in quotes

Between quotes a text may hold anything: its own quotes are doubled, and controls and backslashes
are escaped. The reader looks twice, once for the closing quote, where it keeps the escapes, and
once to decode them. Both times it takes in one character's form after the other, so that the text
comes back whatever its characters are.

## Main definitions

* `Text.Escaped`: the forms that a character takes between quotes.

## Main statements

* `Text.scanQuoted_nccsvEscape`: the closing quote is found.
* `Text.unescape_flatMap_rawChar`: the escapes before it are decoded.
-/

namespace Columnar.Text

variable {c : Char} {f rest after : List Char}

/-! ## Escaped characters -/

/-- The forms in which a character stands between quotes. -/
inductive Escaped : Char → List Char → Prop where
  | quote : Escaped '"' ['"', '"']
  | short {c d : Char} (paired : (c, d) ∈ [('\\', '\\'), ('\n', 'n'), ('\r', 'r'), ('\t', 't')]) :
    Escaped c ['\\', d]
  | unit {c : Char} (control : isControl c = true) :
    Escaped c (unitEscape (BitVec.ofNat 16 c.toNat))
  | plain {c : Char} (quote : c ≠ '"') (backslash : c ≠ '\\') (control : isControl c = false) :
    Escaped c [c]

theorem toNat_lt_of_isControl (control : isControl c = true) : c.toNat < 0x10000 := by
  simp only [isControl, Bool.or_eq_true, Bool.and_eq_true, decide_eq_true_eq] at control
  omega

theorem escaped_nccsvChar (c : Char) : Escaped c (nccsvChar c) := by
  unfold nccsvChar
  split
  case h_1 e short =>
    unfold shortEscape at short
    split at short
    all_goals first | cases short; apply Escaped.short; decide | cases short
  case h_2 none =>
    have backslash : c ≠ '\\' := by
      rintro rfl
      cases none
    split
    case isTrue quote => exact quote ▸ .quote
    case isFalse quote =>
      split
      case isTrue control =>
        rw [unicodeEscape_of_lt (toNat_lt_of_isControl control)]
        exact .unit control
      case isFalse control => exact .plain quote backslash (by simpa using control)

/-! ## Reading between quotes -/

/-- A character after the closing quote has been found: a doubled quote has become one. -/
def rawChar (c : Char) : List Char := if c = '"' then ['"'] else nccsvChar c

theorem scanQuoted_cons (quote : c ≠ '"') (backslash : c ≠ '\\') (rest : List Char) :
    scanQuoted (c :: rest) = (c :: (scanQuoted rest).1, (scanQuoted rest).2) := by
  cases rest <;> simp_all [scanQuoted]

theorem scanQuoted_escape (c : Char) (rest : List Char) :
    scanQuoted ('\\' :: c :: rest) = ('\\' :: c :: (scanQuoted rest).1, (scanQuoted rest).2) := by
  simp [scanQuoted]

theorem scanQuoted_quotes (rest : List Char) :
    scanQuoted ('"' :: '"' :: rest) = ('"' :: (scanQuoted rest).1, (scanQuoted rest).2) := by
  simp [scanQuoted]

/-- The closing quote is the one that no other quote follows. -/
theorem scanQuoted_close (single : after.head? ≠ some '"') :
    scanQuoted ('"' :: after) = ([], after) := by
  cases after <;> simp_all [scanQuoted]

theorem not_mem_of_mem_unitDigits {u : CodeUnit} (held : c ∈ unitDigits u) :
    c ∉ ['"', '\\', ','] := by
  have table : ∀ d < 16, Nat.digitChar d ∉ ['"', '\\', ','] := by decide
  have small : u.toNat < 0x10000 := u.isLt
  simp only [unitDigits, unitEscape, List.drop_succ_cons, List.drop_zero, List.mem_cons,
    List.not_mem_nil, or_false] at held
  rcases held with rfl | rfl | rfl | rfl <;> apply table <;> omega

theorem scanQuoted_append_of_forall {cs : List Char} (bare : ∀ c ∈ cs, c ≠ '"' ∧ c ≠ '\\')
    (rest : List Char) :
    scanQuoted (cs ++ rest) = (cs ++ (scanQuoted rest).1, (scanQuoted rest).2) := by
  induction cs with
  | nil => rfl
  | cons c cs ih =>
    obtain ⟨quote, backslash⟩ := bare c List.mem_cons_self
    rw [List.cons_append, scanQuoted_cons quote backslash,
      ih fun d held => bare d (List.mem_cons_of_mem c held)]
    rfl

theorem scanQuoted_nccsvChar_append (c : Char) (rest : List Char) :
    scanQuoted (nccsvChar c ++ rest) =
      (rawChar c ++ (scanQuoted rest).1, (scanQuoted rest).2) := by
  unfold rawChar
  have form := escaped_nccsvChar c
  generalize nccsvChar c = e at form ⊢
  cases form with
  | quote => exact scanQuoted_quotes rest
  | short paired =>
    have other : c ≠ '"' := by grind
    rw [if_neg other]
    exact scanQuoted_escape _ rest
  | unit control =>
    have other : c ≠ '"' := by
      rintro rfl
      exact absurd control (by decide)
    rw [if_neg other, unitEscape_eq, List.cons_append, List.cons_append, scanQuoted_escape,
      scanQuoted_append_of_forall]
    · rfl
    · intro d held
      have other := not_mem_of_mem_unitDigits held
      grind
  | plain quote backslash control =>
    rw [if_neg quote]
    exact scanQuoted_cons quote backslash rest

theorem scanQuoted_nccsvEscape (single : after.head? ≠ some '"') (f : List Char) :
    scanQuoted (nccsvEscape f ++ '"' :: after) = (f.flatMap rawChar, after) := by
  induction f with
  | nil => exact scanQuoted_close single
  | cons c f ih =>
    have split : nccsvEscape (c :: f) = nccsvChar c ++ nccsvEscape f := List.flatMap_cons
    rw [split, List.append_assoc, scanQuoted_nccsvChar_append, ih, List.flatMap_cons]

theorem hexUnit_unitDigits (u : CodeUnit) : hexUnit (unitDigits u) = some u := by
  rw [hexUnit, if_pos (length_unitDigits u), if_neg (head?_unitDigits u)]
  simp [readNat_unitDigits]

theorem unescape_cons (backslash : c ≠ '\\') (rest : List Char) :
    unescape (c :: rest) = Utf16.encodeChar c ++ unescape rest := by
  rw [unescape]
  all_goals simp [backslash]

/-- Decoding of escapes inverts their encoding, one character at a time. -/
theorem unescape_rawChar_append (c : Char) (rest : List Char) :
    unescape (rawChar c ++ rest) = Utf16.encodeChar c ++ unescape rest := by
  unfold rawChar
  have form := escaped_nccsvChar c
  generalize nccsvChar c = e at form ⊢
  cases form with
  | quote => exact unescape_cons (by decide) rest
  | short paired =>
    have other : c ≠ '"' := by grind
    rw [if_neg other]
    simp only [List.mem_cons, Prod.mk.injEq, List.not_mem_nil, or_false] at paired
    rcases paired with ⟨rfl, rfl⟩ | ⟨rfl, rfl⟩ | ⟨rfl, rfl⟩ | ⟨rfl, rfl⟩ <;> simp [unescape]
  | unit control =>
    have other : c ≠ '"' := by
      rintro rfl
      exact absurd control (by decide)
    have digits := length_unitDigits (BitVec.ofNat 16 c.toNat)
    rw [if_neg other, unitEscape_eq, List.cons_append, List.cons_append, unescape,
      List.take_left' digits, List.drop_left' digits, hexUnit_unitDigits,
      Utf16.encodeChar_of_lt (toNat_lt_of_isControl control)]
  | plain quote backslash control =>
    rw [if_neg quote]
    exact unescape_cons backslash rest

theorem unescape_flatMap_rawChar (f : List Char) :
    unescape (f.flatMap rawChar) = Utf16.encode f := by
  induction f with
  | nil => simp [unescape, Utf16.encode]
  | cons c f ih =>
    rw [List.flatMap_cons, unescape_rawChar_append, ih]
    rfl

/-- A quoted text is read up to its closing quote and gives the text back. -/
theorem scanItem_quoted (single : after.head? ≠ some '"') (f : List Char) :
    scanItem ('"' :: nccsvEscape f ++ '"' :: after) = (f, after.dropWhile (· ≠ ',')) := by
  have start : trimStart ('"' :: nccsvEscape f ++ '"' :: after) =
      '"' :: (nccsvEscape f ++ '"' :: after) := by
    simp [trimStart, show isWhiteSpace '"' = false by decide]
  rw [scanItem, start]
  simp only [scanQuoted_nccsvEscape single, unescape_flatMap_rawChar, Utf16.decodeLossy_encode]

end Columnar.Text

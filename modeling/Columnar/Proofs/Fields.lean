import Columnar.Proofs.QuotedTexts

/-!
# The fields of comma-separated text

Every text is a sequence of fields, parted by commas. A field whose first character that is no white
space is a quote runs to the closing quote, and only the raw text between the two counts. Escapes
hide quotes there, and doubled quotes stand for one. Any other field runs to the next comma. The
grammar below says so without a scanner; the scanner finds just the fields of the grammar.

## Main definitions

* `Text.Between`: the raw text behind an opening quote, and what follows the closing quote.
* `Text.Splits`: the fields of a text.

## Main statements

* `Text.exists_splits`: every text has fields.
* `Text.Splits.items_eq`: the items of a text are those of its fields.
-/

namespace Columnar.Text

/-! ## Between quotes -/

/-- Behind an opening quote, `Between cs raw after` says that `cs` holds the raw text `raw`, the
closing quote and then `after`. The closing quote may be missing at the end of the text. -/
inductive Between : List Char → List Char → List Char → Prop where
  | closed {after : List Char} (single : after.head? ≠ some '"') : Between ('"' :: after) [] after
  | ended : Between [] [] []
  | quotes {cs raw after : List Char} (tail : Between cs raw after) :
    Between ('"' :: '"' :: cs) ('"' :: raw) after
  | escape {cs raw after : List Char} (c : Char) (tail : Between cs raw after) :
    Between ('\\' :: c :: cs) ('\\' :: c :: raw) after
  | lone : Between ['\\'] ['\\'] []
  | plain {c : Char} {cs raw after : List Char} (quote : c ≠ '"') (backslash : c ≠ '\\')
    (tail : Between cs raw after) : Between (c :: cs) (c :: raw) after

variable {c : Char} {cs raw after f rest spaces dropped : List Char}

theorem Between.scanQuoted_eq (between : Between cs raw after) : scanQuoted cs = (raw, after) := by
  induction between with
  | closed single => exact scanQuoted_close single
  | ended => rfl
  | quotes _ ih => rw [scanQuoted_quotes, ih]
  | escape c _ ih => rw [scanQuoted_escape, ih]
  | lone => rfl
  | plain quote backslash _ ih => rw [scanQuoted_cons quote backslash, ih]

theorem between_scanQuoted (cs : List Char) :
    Between cs (scanQuoted cs).1 (scanQuoted cs).2 := by
  fun_induction scanQuoted cs with
  | case1 => exact .ended
  | case2 rest raw after scanned ih => exact .quotes (by simpa [scanned] using ih)
  | case3 rest doubled =>
    refine .closed fun quoted => ?_
    obtain ⟨tail, rfl⟩ := List.head?_eq_some_iff.mp quoted
    exact doubled tail rfl
  | case4 c rest raw after scanned ih => exact .escape c (by simpa [scanned] using ih)
  | case5 c rest doubled quote escape raw after scanned ih =>
    rw [scanned] at ih
    by_cases backslash : c = '\\'
    · have last : rest = [] := by
        cases rest with
        | nil => rfl
        | cons d rest => exact (escape d rest backslash rfl).elim
      subst backslash last
      cases scanned
      exact .lone
    · exact .plain quote backslash ih

theorem Between.length_le (between : Between cs raw after) : after.length ≤ cs.length := by
  have scanned := length_scanQuoted_le cs
  rwa [between.scanQuoted_eq] at scanned

/-! ## Fields -/

/-- A field: the raw text between its quotes, or all of it where it has none. -/
inductive Field where
  | quoted (raw : List Char)
  | plain (text : List Char)
deriving DecidableEq, Repr

/-- The item of a field. -/
def Field.item : Field → List Char
  | .quoted raw => Utf16.decodeLossy (unescape raw)
  | .plain text => trim text

/-- The fields of a text. White space may stand before an opening quote; what stands between the
closing quote and the next comma belongs to no field. -/
inductive Splits : List Char → List Field → Prop where
  | lastPlain {f : List Char} (bare : ',' ∉ f) (unquoted : Unquoted f) : Splits f [.plain f]
  | plain {f rest : List Char} {fields : List Field} (bare : ',' ∉ f) (unquoted : Unquoted f)
    (tail : Splits rest fields) : Splits (f ++ ',' :: rest) (.plain f :: fields)
  | lastQuoted {spaces cs raw dropped : List Char} (blank : isBlank spaces = true)
    (between : Between cs raw dropped) (bare : ',' ∉ dropped) :
    Splits (spaces ++ '"' :: cs) [.quoted raw]
  | quoted {spaces cs raw dropped rest : List Char} {fields : List Field}
    (blank : isBlank spaces = true) (between : Between cs raw (dropped ++ ',' :: rest))
    (bare : ',' ∉ dropped) (tail : Splits rest fields) :
    Splits (spaces ++ '"' :: cs) (.quoted raw :: fields)

variable {fields : List Field}

/-! ## The scanner finds the fields -/

theorem trimStart_append_quote (blank : isBlank spaces = true) (cs : List Char) :
    trimStart (spaces ++ '"' :: cs) = '"' :: cs := by
  rw [trimStart, List.dropWhile_append_of_pos (List.all_eq_true.mp blank)]
  rfl

theorem scanItem_append_quote (blank : isBlank spaces = true) (between : Between cs raw after) :
    scanItem (spaces ++ '"' :: cs) =
      ((Field.quoted raw).item, after.dropWhile (· ≠ ',')) := by
  simp only [scanItem, trimStart_append_quote blank, between.scanQuoted_eq, Field.item]

section

variable (blank : isBlank spaces = true) (bare : ',' ∉ dropped)
include blank bare

/-- What follows the closing quote is dropped up to the comma; splitting goes on behind it. -/
theorem items_append_quote (between : Between cs raw (dropped ++ ',' :: rest)) :
    items (spaces ++ '"' :: cs) = (Field.quoted raw).item :: items rest := by
  have before (c : Char) (held : c ∈ dropped) : decide (c ≠ ',') = true := by grind
  rw [items_eq, scanItem_append_quote blank between, List.dropWhile_append_of_pos before]
  rfl

theorem items_append_last_quote (between : Between cs raw dropped) :
    items (spaces ++ '"' :: cs) = [(Field.quoted raw).item] := by
  have before (c : Char) (held : c ∈ dropped) : decide (c ≠ ',') = true := by grind
  rw [items_eq, scanItem_append_quote blank between, List.dropWhile_eq_nil_iff.mpr before]

end

/-- The items of a text are those of its fields. -/
theorem Splits.items_eq (splits : Splits cs fields) : items cs = fields.map Field.item := by
  induction splits with
  | lastPlain bare unquoted => exact items_of_not_mem bare unquoted
  | plain bare unquoted _ ih => rw [items_append_comma bare unquoted, ih, List.map_cons, Field.item]
  | lastQuoted blank between bare => exact items_append_last_quote blank bare between
  | quoted blank between bare _ ih => rw [items_append_quote blank bare between, ih, List.map_cons]

theorem unquoted_of_append_comma (unquoted : Unquoted (f ++ ',' :: rest)) : Unquoted f := by
  unfold Unquoted at unquoted ⊢
  rw [trimStart_append_comma] at unquoted
  cases start : trimStart f with
  | nil => simp
  | cons c g => rwa [start] at unquoted

/-- Every text has fields. -/
theorem exists_splits (cs : List Char) : ∃ fields, Splits cs fields := by
  induction size : cs.length using Nat.strong_induction_on generalizing cs with
  | h size ih =>
    subst size
    by_cases unquoted : Unquoted cs
    · by_cases comma : ',' ∈ cs
      · obtain ⟨f, rest, rfl, bare⟩ := List.eq_append_cons_of_mem comma
        obtain ⟨fields, tail⟩ := ih rest.length (by simp; omega) rest rfl
        exact ⟨_, .plain bare (unquoted_of_append_comma unquoted) tail⟩
      · exact ⟨_, .lastPlain comma unquoted⟩
    · obtain ⟨body, start⟩ : ∃ body, trimStart cs = '"' :: body :=
        List.head?_eq_some_iff.mp (not_not.mp unquoted)
      obtain ⟨spaces, blank, rfl⟩ : ∃ spaces, isBlank spaces = true ∧ cs = spaces ++ '"' :: body :=
        ⟨cs.takeWhile isWhiteSpace, List.all_takeWhile, by
          rw [← start, trimStart, List.takeWhile_append_dropWhile]⟩
      have between := between_scanQuoted body
      generalize (scanQuoted body).1 = raw, (scanQuoted body).2 = after at between
      by_cases comma : ',' ∈ after
      · obtain ⟨dropped, rest, rfl, bare⟩ := List.eq_append_cons_of_mem comma
        have shorter := between.length_le
        simp only [List.length_append, List.length_cons] at shorter
        obtain ⟨fields, tail⟩ := ih rest.length (by simp; omega) rest rfl
        exact ⟨_, .quoted blank between bare tail⟩
      · exact ⟨_, .lastQuoted blank between comma⟩

/-! ## Splitting -/

/-- Blank text is a single field without quotes. -/
theorem Splits.eq_of_isBlank (splits : Splits cs fields) (blank : isBlank cs = true) :
    fields = [.plain cs] := by
  have black (c : Char) (held : c ∈ cs) : isWhiteSpace c = true := List.all_eq_true.mp blank c held
  have comma : ',' ∉ cs := fun held => absurd (black ',' held) (by decide)
  have quote : '"' ∉ cs := fun held => absurd (black '"' held) (by decide)
  cases splits with
  | lastPlain => rfl
  | plain => simp at comma
  | lastQuoted => simp at quote
  | quoted => simp at quote

/-- A field in quotes is read as the item at its place. -/
theorem Splits.getElem?_splitCsv {s : String} (splits : Splits s.toList fields) {i : Nat}
    (quoted : fields[i]? = some (.quoted raw)) :
    (splitCsv s)[i]? = some (String.ofList (Field.quoted raw).item) := by
  have shown : isBlank s.toList = false := by
    by_contra blank
    rw [splits.eq_of_isBlank (by simpa using blank)] at quoted
    have held := List.mem_of_getElem? quoted
    simp at held
  simp [splitCsv, shown, splits.items_eq, quoted]

end Columnar.Text

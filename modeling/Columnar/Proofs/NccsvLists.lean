import Columnar.Column.Render
import Columnar.Proofs.Converting
import Columnar.Proofs.Histories
import Columnar.Proofs.QuotedTexts

/-!
# Lists of texts in the manner of NCCSV

A text that has to stand in quotes is read back from there, however its quotes, escapes and commas
are mixed. One that is written without quotes is taken as it stands: its escapes are not decoded and
the white space at its ends is lost. So a list of texts is read back when each of them is either of
the first sort or free of escapes and of white space at its ends.

## Main definitions

* `Text.IsVerbatim`: nothing in the text is escaped, and nothing is trimmed off it.
* `Text.Survives`: the text stands in quotes or is verbatim.

## Main statements

* `Text.splitCsv_intercalate_nccsvQuote`: texts that survive are the items of their list.
* `Text.splitCsv_nccsvQuote_iff`: a text alone in its list is read back only if it survives.
-/

namespace Columnar.Text

variable {c : Char} {f rest after : List Char} {fs : List (List Char)}

/-! ## Which texts survive -/

/-- The text holds a separator or a quote, or it starts or ends with a space. -/
def IsQuotable (f : List Char) : Prop :=
  ',' ∈ f ∨ '"' ∈ f ∨ f.head? = some ' ' ∨ f.getLast? = some ' '

/-- The text holds no character that would be escaped, and has no white space at its ends. -/
structure IsVerbatim (f : List Char) : Prop where
  backslash_not_mem : '\\' ∉ f
  isControl_eq_false : ∀ c ∈ f, isControl c = false
  head_eq_false : ∀ c, f.head? = some c → isWhiteSpace c = false
  last_eq_false : ∀ c, f.getLast? = some c → isWhiteSpace c = false

/-- The text can be read back from a list. -/
def Survives (f : List Char) : Prop := IsQuotable f ∨ IsVerbatim f

theorem needsQuotes_eq_true_iff : needsQuotes f = true ↔ IsQuotable f := by
  simp only [needsQuotes, IsQuotable, Bool.or_eq_true, List.any_eq_true, beq_iff_eq]
  grind

/-! ## Lists of texts -/

theorem nccsvChar_eq_self (quote : c ≠ '"') (backslash : c ≠ '\\') (bare : isControl c = false) :
    nccsvChar c = [c] := by
  have form := escaped_nccsvChar c
  generalize nccsvChar c = e at form ⊢
  cases form with
  | quote => exact absurd rfl quote
  | short paired =>
    simp only [List.mem_cons, Prod.mk.injEq, List.not_mem_nil, or_false] at paired
    rcases paired with ⟨rfl, -⟩ | ⟨rfl, -⟩ | ⟨rfl, -⟩ | ⟨rfl, -⟩
    · exact absurd rfl backslash
    all_goals exact absurd bare (by decide)
  | unit control => rw [bare] at control; cases control
  | plain => rfl

theorem nccsvQuote_of_isQuotable (quotable : IsQuotable f) :
    nccsvQuote f = '"' :: nccsvEscape f ++ ['"'] :=
  if_pos (needsQuotes_eq_true_iff.mpr quotable)

theorem nccsvQuote_of_not_isQuotable (bare : ¬ IsQuotable f) : nccsvQuote f = nccsvEscape f :=
  if_neg (mt needsQuotes_eq_true_iff.mp bare)

theorem nccsvQuote_of_isVerbatim (bare : ¬ IsQuotable f) (verbatim : IsVerbatim f) :
    nccsvQuote f = f := by
  have each : ∀ c ∈ f, nccsvChar c = [c] := by
    intro c held
    apply nccsvChar_eq_self
    · rintro rfl
      exact bare (.inr (.inl held))
    · rintro rfl
      exact verbatim.backslash_not_mem held
    · exact verbatim.isControl_eq_false c held
  rw [nccsvQuote_of_not_isQuotable bare, nccsvEscape, List.flatMap_congr each]
  exact List.flatMap_singleton' f

/-- A text that survives is read from the front of a list, up to the comma behind it. -/
theorem scanItem_nccsvQuote_append (survives : Survives f)
    (ends : after = [] ∨ ∃ rest, after = ',' :: rest) :
    scanItem (nccsvQuote f ++ after) = (f, after) := by
  by_cases quotable : IsQuotable f
  · have single : after.head? ≠ some '"' := by rcases ends with rfl | ⟨rest, rfl⟩ <;> simp
    have stop : after.dropWhile (· ≠ ',') = after := by rcases ends with rfl | ⟨rest, rfl⟩ <;> simp
    rw [nccsvQuote_of_isQuotable quotable, List.append_assoc]
    exact (scanItem_quoted single f).trans (congrArg _ stop)
  · have verbatim : IsVerbatim f := survives.resolve_left quotable
    have comma : ',' ∉ f := fun held => quotable (.inl held)
    have unquoted : Unquoted f := unquoted_of_not_mem fun held => quotable (.inr (.inl held))
    have trimmed : trim f = f := trim_eq_self verbatim.head_eq_false verbatim.last_eq_false
    rw [nccsvQuote_of_isVerbatim quotable verbatim]
    rcases ends with rfl | ⟨rest, rfl⟩
    · rw [List.append_nil, scanItem_of_not_mem comma unquoted, trimmed]
    · rw [scanItem_append_comma comma unquoted, trimmed]

theorem items_intercalate_nccsvQuote (some_text : fs ≠ []) (survive : ∀ f ∈ fs, Survives f) :
    items ([','].intercalate (fs.map nccsvQuote)) = fs := by
  induction fs with
  | nil => exact absurd rfl some_text
  | cons f fs ih =>
    have first := survive f List.mem_cons_self
    cases fs with
    | nil =>
      have scanned := scanItem_nccsvQuote_append first (.inl rfl)
      rw [List.append_nil] at scanned
      rw [List.map_singleton, List.intercalate_singleton, items_eq, scanned]
    | cons g fs =>
      have others := ih (by simp) fun h held => survive h (List.mem_cons_of_mem _ held)
      have scanned := scanItem_nccsvQuote_append first
        (.inr ⟨[','].intercalate ((g :: fs).map nccsvQuote), rfl⟩)
      rw [List.map_cons, List.map_cons, List.intercalate_cons_cons, List.append_assoc,
        ← List.map_cons, items_eq]
      simp only [List.singleton_append, scanned, others]

/-- A list is blank only if it has no text, or a single empty one. -/
theorem isBlank_intercalate_nccsvQuote (some_text : fs ≠ []) (lone : fs ≠ [[]])
    (survive : ∀ f ∈ fs, Survives f) : isBlank ([','].intercalate (fs.map nccsvQuote)) = false := by
  apply List.all_eq_false.mpr
  match fs, some_text with
  | [f], _ =>
    rw [List.map_singleton, List.intercalate_singleton]
    by_cases quotable : IsQuotable f
    · refine ⟨'"', ?_, by decide⟩
      simp [nccsvQuote_of_isQuotable quotable]
    · have verbatim := (survive f List.mem_cons_self).resolve_left quotable
      obtain ⟨c, g, rfl⟩ := List.exists_cons_of_ne_nil (l := f) (by simpa using lone)
      refine ⟨c, ?_, by simp [verbatim.head_eq_false c rfl]⟩
      simp [nccsvQuote_of_isVerbatim quotable verbatim]
  | f :: g :: fs, _ =>
    refine ⟨',', ?_, by decide⟩
    simp [List.intercalate_cons_cons]

/-! ## Texts that do not survive -/

/-- Escaping makes neither commas nor quotes. -/
theorem eq_of_mem_nccsvChar {d : Char} (special : d = ',' ∨ d = '"') (held : d ∈ nccsvChar c) :
    d = c := by
  have form := escaped_nccsvChar c
  generalize nccsvChar c = e at form held
  cases form with
  | quote => simpa using held
  | short paired => grind
  | unit control =>
    rw [unitEscape_eq] at held
    have digits : d ∉ unitDigits (BitVec.ofNat 16 c.toNat) := by
      intro digit
      have other := not_mem_of_mem_unitDigits digit
      grind
    grind
  | plain => simpa using held

theorem not_mem_nccsvEscape {d : Char} (special : d = ',' ∨ d = '"') (free : d ∉ f) :
    d ∉ nccsvEscape f := by
  intro held
  obtain ⟨c, listed, shown⟩ := List.mem_flatMap.mp held
  exact free (eq_of_mem_nccsvChar special shown ▸ listed)

/-- A character that is written with a backslash. -/
def hasEscape (c : Char) : Bool := c == '\\' || isControl c

theorem count_backslash_nccsvChar (c : Char) :
    [c].count '\\' + [c].countP hasEscape ≤ (nccsvChar c).count '\\' := by
  have form := escaped_nccsvChar c
  generalize nccsvChar c = e at form ⊢
  cases form with
  | quote => decide
  | short paired =>
    simp only [List.mem_cons, Prod.mk.injEq, List.not_mem_nil, or_false] at paired
    rcases paired with ⟨rfl, rfl⟩ | ⟨rfl, rfl⟩ | ⟨rfl, rfl⟩ | ⟨rfl, rfl⟩ <;> decide
  | unit control =>
    have other : c ≠ '\\' := by
      rintro rfl
      exact absurd control (by decide)
    simp [unitEscape_eq, hasEscape, control, other]
  | plain quote backslash control => simp [hasEscape, backslash, control]

/-- Every escape adds a backslash. -/
theorem count_backslash_nccsvEscape (f : List Char) :
    f.count '\\' + f.countP hasEscape ≤ (nccsvEscape f).count '\\' := by
  induction f with
  | nil => simp
  | cons c f ih =>
    have split : nccsvEscape (c :: f) = nccsvChar c ++ nccsvEscape f := List.flatMap_cons
    have first := count_backslash_nccsvChar c
    rw [split, List.count_append, ← List.singleton_append, List.count_append, List.countP_append]
    omega

/-- Without quotes the escapes stay as they are. -/
theorem splitCsv_nccsvQuote_of_not_isQuotable (bare : ¬ IsQuotable f) :
    splitCsv (String.ofList (nccsvQuote f)) =
      if isBlank (nccsvEscape f) then [] else [String.ofList (trim (nccsvEscape f))] := by
  have comma : ',' ∉ nccsvEscape f := not_mem_nccsvEscape (.inl rfl) fun held => bare (.inl held)
  have quote : '"' ∉ nccsvEscape f :=
    not_mem_nccsvEscape (.inr rfl) fun held => bare (.inr (.inl held))
  rw [splitCsv, String.toList_ofList, nccsvQuote_of_not_isQuotable bare,
    items_of_not_mem comma (unquoted_of_not_mem quote), List.map_singleton]

/-- A text that is what is left of its escaped form was never escaped. -/
theorem isVerbatim_of_trim (kept : trim (nccsvEscape f) = f) : IsVerbatim f := by
  obtain ⟨head, last⟩ := isWhiteSpace_ends_trim (f := nccsvEscape f)
  rw [kept] at head last
  -- Each escape has added a backslash, which trimming does not take away.
  have backslashes := count_backslash_nccsvEscape f
  have trimmed := count_trim (c := '\\') (by decide) (nccsvEscape f)
  rw [kept] at trimmed
  have none : f.countP hasEscape = 0 := by omega
  have bare : ∀ c ∈ f, hasEscape c = false := by simpa using List.countP_eq_zero.mp none
  refine ⟨?_, ?_, head, last⟩
  · intro held
    exact absurd (bare '\\' held) (by decide)
  · intro c held
    have free := bare c held
    simp only [hasEscape, Bool.or_eq_false_iff] at free
    exact free.2

/-- A list of texts that survive is split into them, unless it is that of one empty text. -/
theorem splitCsv_intercalate_nccsvQuote {texts : List String} (lone : texts ≠ [""])
    (survive : ∀ s ∈ texts, Survives s.toList) :
    splitCsv (",".intercalate (texts.map (Word.mapChars nccsvQuote))) = texts := by
  by_cases some_text : texts = []
  · rw [some_text]
    rfl
  · have some_list : texts.map String.toList ≠ [] := by simpa using some_text
    have lone_list : texts.map String.toList ≠ [[]] := by
      intro empty
      obtain ⟨s, rfl, none⟩ := List.map_eq_singleton_iff.mp empty
      exact lone (by rw [String.toList_eq_nil_iff.mp none])
    have survive_list : ∀ f ∈ texts.map String.toList, Survives f := by simpa using survive
    have list : (",".intercalate (texts.map (Word.mapChars nccsvQuote))).toList =
        [','].intercalate ((texts.map String.toList).map nccsvQuote) := by
      rw [String.toList_intercalate]
      simp [Word.mapChars, Function.comp_def]
    rw [splitCsv, list, isBlank_intercalate_nccsvQuote some_list lone_list survive_list,
      items_intercalate_nccsvQuote some_list survive_list]
    simp [Function.comp_def]

theorem splitCsv_nccsvQuote_of_survives {s : String} (nonempty : s ≠ "")
    (survives : Survives s.toList) : splitCsv (String.ofList (nccsvQuote s.toList)) = [s] := by
  have read : splitCsv (",".intercalate ([s].map (Word.mapChars nccsvQuote))) = [s] :=
    splitCsv_intercalate_nccsvQuote (by simpa using nonempty) (by simpa using survives)
  simpa [Word.mapChars] using read

/-- A single text is read back from its list exactly if it survives and is not empty. -/
theorem splitCsv_nccsvQuote_iff {s : String} :
    splitCsv (String.ofList (nccsvQuote s.toList)) = [s] ↔ s ≠ "" ∧ Survives s.toList := by
  constructor
  · intro kept
    constructor
    · rintro rfl
      cases kept
    · by_cases quotable : IsQuotable s.toList
      · exact .inl quotable
      · rw [splitCsv_nccsvQuote_of_not_isQuotable quotable] at kept
        split at kept
        · cases kept
        · exact .inr (isVerbatim_of_trim (by simpa [String.ext_iff] using kept))
  · rintro ⟨nonempty, survives⟩
    exact splitCsv_nccsvQuote_of_survives nonempty survives

theorem length_splitCsv_nccsvQuote_le (s : String) :
    (splitCsv (String.ofList (nccsvQuote s.toList))).length ≤ 1 := by
  by_cases quotable : IsQuotable s.toList
  · have nonempty : s ≠ "" := by
      rintro rfl
      simp [IsQuotable] at quotable
    rw [splitCsv_nccsvQuote_of_survives nonempty (.inl quotable)]
    rfl
  · rw [splitCsv_nccsvQuote_of_not_isQuotable quotable]
    split <;> simp

end Columnar.Text

namespace Columnar.Column

variable {env : Environment} {c : Column .string}

theorem map_ofText_string (texts : List String) :
    texts.map (Word.ofText .string) = texts.map some := rfl

theorem nccsvList_singleton {w : Word .string} (one : c.words = [w]) :
    c.nccsvList = String.ofList (Text.nccsvQuote (String.toList w)) := by
  rw [nccsvList, one]
  rfl

/-- Reading a list makes the column of its items. -/
theorem words_of_ofCsv_string {s : String} (few : (Text.splitCsv s).length ≤ maxSize)
    {d : Column .string} (made : Column.ofCsv env .string s = .ok d) :
    d.words = Text.splitCsv s := by
  rw [eq_of_ofCsv (map_ofText_string _) (by simpa using few) made, taking, words_holding,
    List.map_map]
  exact List.map_id _

/-- A text column is read back from its attribute list if each text has to stand in quotes or is
verbatim, unless a single empty text is all that it holds. A single text is read back only then.
Reading is refused only for the memory that its elements take. -/
theorem Reachable.nccsv_reads_back (h : Reachable env c) :
    (c.words ≠ [""] → (∀ s ∈ c.words, Text.Survives (String.toList s)) →
      ((∃ e, Column.ofCsv env .string c.nccsvList = .error e) ↔ env.Refuses .string c.size) ∧
        ∀ d, Column.ofCsv env .string c.nccsvList = .ok d → d.words = c.words) ∧
      ∀ s, c.words = [s] →
        ((∃ e, Column.ofCsv env .string c.nccsvList = .error e) → env.Refuses .string 1) ∧
        ∀ d, Column.ofCsv env .string c.nccsvList = .ok d →
          (d.words = c.words ↔ s ≠ "" ∧ Text.Survives (String.toList s)) := by
  have formed := h.wellFormed
  have sizes := formed.length_words
  have few := formed.length_words_le
  constructor
  · intro lone survive
    have read : Text.splitCsv c.nccsvList = c.words :=
      Text.splitCsv_intercalate_nccsvQuote lone survive
    constructor
    · rw [ofCsv_eq_error_iff (map_ofText_string _) (by simpa [read] using few), read,
        List.length_map, sizes]
    · intro d made
      rw [words_of_ofCsv_string (by rwa [read]) made, read]
  · intro s one
    have single := nccsvList_singleton one
    have one_item := Text.length_splitCsv_nccsvQuote_le s
    rw [← single] at one_item
    have few : (Text.splitCsv c.nccsvList).length ≤ maxSize := Nat.le_trans one_item (by decide)
    constructor
    · intro refused
      have denied := (ofCsv_eq_error_iff (map_ofText_string _) (by simpa using few)).mp refused
      rw [List.length_map] at denied
      have one : (Text.splitCsv c.nccsvList).length = 1 := Nat.le_antisymm one_item denied.count_pos
      rwa [one] at denied
    · intro d made
      rw [words_of_ofCsv_string few made, single, one]
      exact Text.splitCsv_nccsvQuote_iff

/-- A text that ends in a backslash and a quote, a control beside a comma, and a plain one are read
back. A backslash alone is not. -/
theorem nccsv_list_of_backslash_and_quote :
    let texts : Column .string := ofSlots #["a\\\"", ",\x01", "b c"] 3
    texts.nccsvList = "\"a\\\\\"\"\",\",\\u0001\",b c" ∧
      (∃ d, Column.ofCsv {} .string texts.nccsvList = .ok d ∧ d.words = texts.words) ∧
      let backslash : Column .string := ofSlots #["\\"] 1
      ∃ d, Column.ofCsv {} .string backslash.nccsvList = .ok d ∧ d.words ≠ backslash.words := by
  intro texts
  have reached : Reachable {} texts := .ofWords ["a\\\"", ",\x01", "b c"] rfl
  have survive : ∀ s ∈ texts.words, Text.Survives (String.toList s) := by
    have shown : texts.words = ["a\\\"", ",\x01", "b c"] := rfl
    rw [shown]
    intro s listed
    simp only [List.mem_cons, List.not_mem_nil, or_false] at listed
    rcases listed with rfl | rfl | rfl
    · exact .inl (.inr (.inl (by decide)))
    · exact .inl (.inl (by decide))
    · have printed : ("b c".toList.all fun c => !Text.isControl c) = true := by decide
      refine .inr ⟨by decide, by simpa using printed, ?_, ?_⟩
      · rintro c ⟨⟩
        decide
      · rintro c ⟨⟩
        decide
  obtain ⟨fails, read⟩ := (Reachable.nccsv_reads_back reached).1 (by decide) survive
  refine ⟨by decide +kernel, ?_, ?_⟩
  · obtain ⟨d, made⟩ := Environment.exists_eq_ok fails.mp
    exact ⟨d, made, read d made⟩
  · intro backslash
    have alone : Reachable {} backslash := .ofWords ["\\"] rfl
    obtain ⟨fails, read⟩ := (Reachable.nccsv_reads_back alone).2 "\\" rfl
    obtain ⟨d, made⟩ := Environment.exists_eq_ok fails
    refine ⟨d, made, fun same => ?_⟩
    obtain ⟨-, quotable | verbatim⟩ := (read d made).mp same
    · exact absurd (Text.needsQuotes_eq_true_iff.mpr quotable) (by decide)
    · exact verbatim.backslash_not_mem (by decide)

end Columnar.Column

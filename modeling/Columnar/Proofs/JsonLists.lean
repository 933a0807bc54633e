import Mathlib.Data.List.Forall2
import Columnar.Column.Render
import Columnar.Json
import Columnar.Proofs.Escapes
import Columnar.Proofs.Histories

/-!
# Texts in JSON

A JSON string literal is read back character by character: a short escape as the character that it
names, a unit escape as its unit, and any other character as itself. The literal is made in two
passes, of which the second leaves the escapes of the first alone, as they are ASCII. A list of such
literals and of nulls is what an array holds between its brackets, so that a reader of JSON finds
every element again and no two columns of texts have the same list.

How the library quotes a text is known from the table that it documents, which is what
`Text.FollowsTable` says.

## Main statements

* `Text.jsonQuote_eq`: the literal after both passes, character by character.
* `Json.readString_jsonForms`: a literal is read as the units of its text.
* `Json.read_brackets`: a list of literals and nulls is read as an array of their values.
-/

namespace Columnar

/-! ## Literals -/

namespace Text

variable {c d : Char} {cs : List Char} {quote : List Char → List Char}

/-- The library quotes every text by its documented table. -/
def FollowsTable (quote : List Char → List Char) : Prop := ∀ cs, quote cs = jsonLiteral cs

theorem isAscii_eq_true_iff : isAscii c = true ↔ c.toNat < 0x80 := decide_eq_true_iff

theorem isAscii_of_mem_unicodeEscape (held : d ∈ unicodeEscape c) : isAscii d = true := by
  have table : ∀ n < 16, isAscii (Nat.digitChar n) = true := by decide
  obtain ⟨u, -, shown⟩ := List.mem_flatMap.mp held
  have small : u.toNat < 0x10000 := u.isLt
  simp only [unitEscape, List.mem_cons, List.not_mem_nil, or_false] at shown
  rcases shown with rfl | rfl | rfl | rfl | rfl | rfl
  · decide
  · decide
  all_goals apply table; omega

theorem isAscii_of_mem_asciiChar (held : d ∈ asciiChar c) : isAscii d = true := by
  unfold asciiChar at held
  split at held
  case isTrue ascii => rwa [List.mem_singleton.mp held]
  case isFalse => exact isAscii_of_mem_unicodeEscape held

/-- The second pass leaves ASCII as it is. -/
theorem flatMap_asciiChar_of_isAscii (ascii : ∀ c ∈ cs, isAscii c = true) :
    cs.flatMap asciiChar = cs := by
  induction cs with
  | nil => rfl
  | cons c cs ih =>
    have first : asciiChar c = [c] := if_pos (ascii c List.mem_cons_self)
    rw [List.flatMap_cons, first, ih fun d held => ascii d (List.mem_cons_of_mem c held)]
    rfl

/-- A literal in ASCII is not passed over again, which makes no difference. -/
theorem jsonQuote_eq_flatMap (quote : List Char → List Char) (cs : List Char) :
    jsonQuote quote cs = (quote cs).flatMap asciiChar := by
  dsimp only [jsonQuote]
  split
  case isTrue ascii => exact (flatMap_asciiChar_of_isAscii (List.all_eq_true.mp ascii)).symm
  case isFalse => rfl

/-- What both passes make of a character. -/
def jsonForm (c : Char) : List Char := (jsonChar c).flatMap asciiChar

theorem jsonQuote_eq (table : FollowsTable quote) (cs : List Char) :
    jsonQuote quote cs = '"' :: cs.flatMap jsonForm ++ ['"'] := by
  have mark : asciiChar '"' = ['"'] := by decide
  rw [jsonQuote_eq_flatMap, table, jsonLiteral, List.flatMap_append, List.flatMap_cons,
    List.flatMap_singleton, mark, List.flatMap_assoc]
  rfl

/-- The forms in which a character stands in a literal. -/
inductive JsonForm : Char → List Char → Prop where
  | short {c d : Char} (escape : d ≠ 'u') (named : Json.shortEscape d = some c) :
    JsonForm c ['\\', d]
  | units (c : Char) : JsonForm c (unicodeEscape c)
  | plain {c : Char} (quote : c ≠ '"') (backslash : c ≠ '\\') (above : 0x20 ≤ c.toNat)
    (ascii : isAscii c = true) : JsonForm c [c]

theorem jsonForm_spec (c : Char) : JsonForm c (jsonForm c) := by
  unfold jsonForm jsonChar
  split
  case h_8 quote backslash _ _ _ _ _ =>
    split
    case isTrue control =>
      rw [flatMap_asciiChar_of_isAscii fun _ => isAscii_of_mem_unicodeEscape]
      exact .units c
    case isFalse printable =>
      rw [List.flatMap_singleton, asciiChar]
      split
      case isTrue ascii => exact .plain quote backslash (Nat.le_of_not_lt printable) ascii
      case isFalse => exact .units c
  all_goals exact .short (by decide) rfl

/-- A literal holds ASCII only. -/
theorem isAscii_of_mem_jsonQuote (held : d ∈ jsonQuote quote cs) : isAscii d = true := by
  rw [jsonQuote_eq_flatMap] at held
  obtain ⟨c, -, shown⟩ := List.mem_flatMap.mp held
  exact isAscii_of_mem_asciiChar shown

end Text

namespace Json

variable {cs rest : List Char}

/-! ## Reading literals -/

/-- Units put before those that have been read. -/
def before (units : List CodeUnit) (r : Option (List CodeUnit × List Char)) :
    Option (List CodeUnit × List Char) :=
  r.map fun p => (units ++ p.1, p.2)

theorem before_append (us vs : List CodeUnit) (r : Option (List CodeUnit × List Char)) :
    before (us ++ vs) r = before us (before vs r) := by
  cases r <;> simp [before]

theorem readString_unitEscape_append (u : CodeUnit) (rest : List Char) :
    readString (Text.unitEscape u ++ rest) = before [u] (readString rest) := by
  have digits := Text.readNat_unitDigits u
  have value : BitVec.ofNat 16 u.toNat = u := BitVec.ofNat_toNat _ u |>.trans (by simp)
  simp only [Text.unitDigits, Text.unitEscape, List.drop_succ_cons, List.drop_zero] at digits
  simp only [Text.unitEscape, List.cons_append, List.nil_append]
  rw [readString, digits]
  simp only [Option.bind_eq_bind, Option.bind_some, value, before]
  cases readString rest <;> rfl

theorem readString_flatMap_unitEscape_append (units : List CodeUnit) (rest : List Char) :
    readString (units.flatMap Text.unitEscape ++ rest) = before units (readString rest) := by
  induction units with
  | nil => cases h : readString rest <;> simp [before, h]
  | cons u units ih =>
    rw [List.flatMap_cons, List.append_assoc, readString_unitEscape_append, ih, ← before_append]
    rfl

/-- A character is read from its form in a literal as its units. -/
theorem readString_jsonForm_append (c : Char) (rest : List Char) :
    readString (Text.jsonForm c ++ rest) = before (Utf16.encodeChar c) (readString rest) := by
  have form := Text.jsonForm_spec c
  generalize Text.jsonForm c = e at form ⊢
  cases form with
  | short escape named =>
    simp only [List.cons_append, List.nil_append]
    rw [readString]
    · simp only [named, Option.bind_eq_bind, Option.bind_some, before]
      cases readString rest <;> rfl
    · grind
  | units => exact readString_flatMap_unitEscape_append _ rest
  | plain quote backslash above ascii =>
    have allowed : ¬ (c = '\\' ∨ c.toNat < 0x20) := by
      rintro (bad | bad)
      · exact backslash bad
      · omega
    simp only [List.cons_append, List.nil_append]
    rw [readString]
    · simp only [allowed, if_false, Option.bind_eq_bind, before]
      cases readString rest <;> rfl
    all_goals grind

/-- A literal is read as the units of its text, up to its closing quote. -/
theorem readString_jsonForms (cs rest : List Char) :
    readString (cs.flatMap Text.jsonForm ++ '"' :: rest) = some (Utf16.encode cs, rest) := by
  induction cs with
  | nil => simp [readString, Utf16.encode]
  | cons c cs ih =>
    rw [List.flatMap_cons, List.append_assoc, readString_jsonForm_append, ih]
    rfl

/-! ## Reading lists -/

/-- A text that is read as a value wherever it stands. -/
structure Denotes (text : List Char) (v : Json) : Prop where
  ne_nil : text ≠ []
  head_ne : ∀ c, text.head? = some c → isBlank c = false ∧ c ≠ ']'
  readValue_append : ∀ fuel rest, readValue (fuel + 1) (text ++ rest) = some (v, rest)

theorem denotes_null : Denotes ['n', 'u', 'l', 'l'] .null where
  ne_nil := by decide
  head_ne := by
    rintro c ⟨⟩
    decide
  readValue_append fuel rest := by
    have start : skipBlanks ('n' :: 'u' :: 'l' :: 'l' :: rest) = 'n' :: 'u' :: 'l' :: 'l' :: rest :=
      rfl
    simp [readValue, start, expect]

theorem denotes_jsonQuote {quote : List Char → List Char} (table : Text.FollowsTable quote)
    (cs : List Char) : Denotes (Text.jsonQuote quote cs) (.string (Utf16.encode cs)) where
  ne_nil := by simp [Text.jsonQuote_eq table]
  head_ne := by simp [Text.jsonQuote_eq table, isBlank]
  readValue_append fuel rest := by
    have literal : Text.jsonQuote quote cs ++ rest =
        '"' :: (cs.flatMap Text.jsonForm ++ '"' :: rest) := by
      simp [Text.jsonQuote_eq table]
    have start : skipBlanks ('"' :: (cs.flatMap Text.jsonForm ++ '"' :: rest)) =
        '"' :: (cs.flatMap Text.jsonForm ++ '"' :: rest) := rfl
    rw [literal, readValue, start]
    simp [readString_jsonForms]

theorem readValue_blank (fuel : Nat) (cs : List Char) :
    readValue fuel (' ' :: cs) = readValue fuel cs := by
  have blank : skipBlanks (' ' :: cs) = skipBlanks cs := rfl
  cases fuel with
  | zero => rfl
  | succ fuel => rw [readValue, readValue, blank]

theorem readElements_blank (fuel : Nat) (cs : List Char) :
    readElements fuel (' ' :: cs) = readElements fuel cs := by
  cases fuel with
  | zero => rfl
  | succ fuel => rw [readElements, readElements, readValue_blank]

/-- The texts of one or more values, with separators between them, are read as these values. -/
theorem readElements_intercalate {texts : List (List Char)} {values : List Json} {fuel : Nat}
    (denote : List.Forall₂ Denotes texts values) (some_text : texts ≠ [])
    (enough : texts.length < fuel) (rest : List Char) :
    readElements fuel ([',', ' '].intercalate texts ++ ']' :: rest) = some (values, rest) := by
  induction denote generalizing fuel with
  | nil => exact absurd rfl some_text
  | @cons text v texts values first others ih =>
    obtain ⟨fuel, rfl⟩ : ∃ n, fuel = n + 2 := ⟨fuel - 2, by grind⟩
    cases texts with
    | nil =>
      cases others
      rw [List.intercalate_singleton, readElements, first.readValue_append]
      rfl
    | cons next texts =>
      have continued : readElements (fuel + 1) ([',', ' '].intercalate (next :: texts) ++
          ']' :: rest) = some (values, rest) := ih (by simp) (by grind)
      rw [List.intercalate_cons_cons, List.append_assoc, List.append_assoc, readElements,
        first.readValue_append]
      have comma (cs : List Char) : skipBlanks (',' :: ' ' :: cs) = ',' :: ' ' :: cs := rfl
      simp only [Option.bind_eq_bind, Option.bind_some, List.cons_append, List.nil_append, comma,
        readElements_blank, continued]
      rfl

theorem mem_of_mem_intercalate {c : Char} {separator : List Char} {texts : List (List Char)}
    (held : c ∈ separator.intercalate texts) : c ∈ separator ∨ ∃ text ∈ texts, c ∈ text := by
  induction texts with
  | nil => cases held
  | cons text texts ih =>
    cases texts with
    | nil => exact .inr ⟨text, List.mem_cons_self, by rwa [List.intercalate_singleton] at held⟩
    | cons next texts =>
      rw [List.intercalate_cons_cons] at held
      grind

theorem length_le_length_intercalate {texts : List (List Char)} {values : List Json}
    (denote : List.Forall₂ Denotes texts values) :
    texts.length ≤ ([',', ' '].intercalate texts).length := by
  induction denote with
  | nil => simp
  | @cons text v texts values first others ih =>
    have filled := List.length_pos_iff.mpr first.ne_nil
    cases texts with
    | nil =>
      rw [List.intercalate_singleton]
      exact filled
    | cons next texts =>
      rw [List.intercalate_cons_cons]
      simp only [List.length_append, List.length_cons] at ih ⊢
      omega

/-- An array that is not empty goes on with its first element. -/
theorem readValue_bracket {c : Char} (blank : isBlank c = false) (closing : c ≠ ']') (fuel : Nat)
    (cs : List Char) :
    readValue (fuel + 1) ('[' :: c :: cs) =
      (readElements fuel (c :: cs)).map fun p => (.array p.1, p.2) := by
  have opening : skipBlanks ('[' :: c :: cs) = '[' :: c :: cs := rfl
  have start : skipBlanks (c :: cs) = c :: cs := by simp [skipBlanks, blank]
  rw [readValue, opening]
  simp only [start]
  grind

/-- A list of texts of values, put between brackets, is read as the array of the values. -/
theorem read_brackets {s : String} {texts : List (List Char)} {values : List Json}
    (denote : List.Forall₂ Denotes texts values) (list : s.toList = [',', ' '].intercalate texts) :
    read ("[" ++ s ++ "]") = some (.array values) := by
  have document : ("[" ++ s ++ "]").toList = '[' :: ([',', ' '].intercalate texts ++ [']']) := by
    simp [list]
  have long := length_le_length_intercalate denote
  have length : ("[" ++ s ++ "]").length = ([',', ' '].intercalate texts).length + 2 := by
    rw [← String.length_toList, document]
    simp
  have value : readValue (("[" ++ s ++ "]").length + 1) ("[" ++ s ++ "]").toList =
      some (.array values, []) := by
    rw [document]
    cases denote with
    | nil => rfl
    | @cons text v texts values first others =>
      have elements : readElements ("[" ++ s ++ "]").length
          ([',', ' '].intercalate (text :: texts) ++ [']']) = some (v :: values, []) :=
        readElements_intercalate (.cons first others) (by simp) (by omega) []
      obtain ⟨c, more, shown⟩ : ∃ c more, [',', ' '].intercalate (text :: texts) = c :: more ∧
          text.head? = some c := by
        obtain ⟨c, more, rfl⟩ := List.exists_cons_of_ne_nil first.ne_nil
        cases texts <;> simp [List.intercalate_cons_cons]
      obtain ⟨blank, closing⟩ := first.head_ne c shown.2
      rw [shown.1] at elements ⊢
      rw [List.cons_append, readValue_bracket blank closing, ← List.cons_append, elements]
      rfl
  rw [read, value]
  rfl

/-- A text of a value alone is read as the value. -/
theorem Denotes.read_eq {text : List Char} {v : Json} (denotes : Denotes text v) :
    read (String.ofList text) = some v := by
  have value := denotes.readValue_append (String.ofList text).length []
  rw [List.append_nil] at value
  rw [read, String.toList_ofList, value]
  rfl

theorem textOf_encode (s : String) : textOf (Utf16.encode s.toList) = some s := by
  simp [textOf, Utf16.decodeStrict_encode]

end Json

/-! ## Columns of texts -/

namespace Column

variable {env : Environment} {c d : Column .string} {w : Word .string}
  {quote : List Char → List Char}

/-- What a reader of JSON makes of an element: nothing of a missing one, and otherwise a string that
spells the element. -/
def ReadsAs (c : Column .string) (w : Word .string) (v : Json) : Prop :=
  if c.readsMissing w then v = .null else ∃ units, v = .string units ∧ Json.textOf units = some w

/-- The value of an element. -/
def jsonValue (c : Column .string) (w : Word .string) : Json :=
  if c.readsMissing w then .null else .string (Utf16.encode (String.toList w))

theorem readsAs_jsonValue (c : Column .string) (w : Word .string) :
    c.ReadsAs w (c.jsonValue w) := by
  unfold ReadsAs jsonValue
  split
  case isTrue => rfl
  case isFalse => exact ⟨_, rfl, Json.textOf_encode w⟩

theorem isAscii_of_mem_jsonOf {ch : Char} (held : ch ∈ (c.jsonOf quote w).toList) :
    Text.isAscii ch = true := by
  unfold jsonOf at held
  split at held
  case isTrue =>
    have ascii : "null".toList.all Text.isAscii = true := by decide
    exact List.all_eq_true.mp ascii ch held
  case isFalse =>
    rw [Word.jsonText, Word.mapChars, String.toList_ofList] at held
    exact Text.isAscii_of_mem_jsonQuote held

theorem toList_jsonList (c : Column .string) (quote : List Char → List Char) :
    (c.jsonList quote).toList =
      [',', ' '].intercalate ((c.words.map (c.jsonOf quote)).map String.toList) :=
  String.toList_intercalate

/-- The list holds ASCII only. -/
theorem isAscii_of_mem_jsonList {ch : Char} (held : ch ∈ (c.jsonList quote).toList) :
    Text.isAscii ch = true := by
  rw [toList_jsonList] at held
  rcases Json.mem_of_mem_intercalate held with separator | ⟨text, listed, shown⟩
  · have ascii : [',', ' '].all Text.isAscii = true := by decide
    exact List.all_eq_true.mp ascii ch separator
  · rw [List.map_map] at listed
    obtain ⟨w, -, rfl⟩ := List.mem_map.mp listed
    exact isAscii_of_mem_jsonOf shown

section

variable (table : Text.FollowsTable quote)
include table

theorem denotes_jsonOf (c : Column .string) (w : Word .string) :
    Json.Denotes (c.jsonOf quote w).toList (c.jsonValue w) := by
  unfold jsonOf jsonValue
  split
  case isTrue => exact Json.denotes_null
  case isFalse =>
    rw [Word.jsonText, Word.mapChars, String.toList_ofList]
    exact Json.denotes_jsonQuote table _

theorem forall₂_denotes (c : Column .string) :
    List.Forall₂ Json.Denotes ((c.words.map (c.jsonOf quote)).map String.toList)
      (c.words.map c.jsonValue) := by
  simp only [List.map_map, List.forall₂_map_left_iff, List.forall₂_map_right_iff, List.forall₂_same]
  intro w _
  exact denotes_jsonOf table c w

theorem read_jsonList (c : Column .string) :
    Json.read ("[" ++ c.jsonList quote ++ "]") = some (.array (c.words.map c.jsonValue)) :=
  Json.read_brackets (forall₂_denotes table c) (c.toList_jsonList quote)

end

/-- Different texts have different values. -/
theorem jsonValue_injective (raised : c.flag = true) {u : Word .string}
    (same : c.jsonValue u = c.jsonValue w) : u = w := by
  have value (w : Word .string) : c.jsonValue w =
      if w = "" then .null else .string (Utf16.encode (String.toList w)) := by
    simp [jsonValue, readsMissing, raised, Word.isSentinel]
  rw [value, value] at same
  split at same <;> split at same
  · simp_all
  · cases same
  · cases same
  · have texts := congrArg Json.textOf (Json.string.inj same)
    rw [Json.textOf_encode, Json.textOf_encode] at texts
    exact Option.some.inj texts

theorem words_eq_of_jsonList (table : Text.FollowsTable quote) (hc : c.WellFormed)
    (hd : d.WellFormed) (same : d.jsonList quote = c.jsonList quote) : d.words = c.words := by
  have raised : d.flag = true := hd.raised rfl
  have flags : d.flag = c.flag := raised.trans (hc.raised rfl).symm
  have values : d.jsonValue = c.jsonValue := by
    funext w
    simp [jsonValue, readsMissing, flags]
  have read := read_jsonList table d
  rw [same, read_jsonList table c, ← values] at read
  have lists := Json.array.inj (Option.some.inj read)
  have injective : Function.Injective d.jsonValue := fun _ _ => jsonValue_injective raised
  exact (List.map_injective_iff.mpr injective lists).symm

/-- The JSON list of a text column is ASCII. It has an item for each element: null for a missing
one, and otherwise a literal that a reader of JSON decodes to the text of the element. Between
brackets it is read as the array of these values. So columns with different texts have different
lists. -/
theorem Reachable.json_faithful (h : Reachable env c) (table : Text.FollowsTable quote) :
    (∀ ch ∈ (c.jsonList quote).toList, ch.toNat < 0x80) ∧
      (∃ items, c.jsonList quote = ", ".intercalate items ∧
        List.Forall₂ (fun w item => (c.readsMissing w = true → item = "null") ∧
          ∃ v, Json.read item = some v ∧ c.ReadsAs w v) c.words items) ∧
      (∃ values, Json.read ("[" ++ c.jsonList quote ++ "]") = some (.array values) ∧
        List.Forall₂ c.ReadsAs c.words values) ∧
      ∀ d : Column .string, Reachable env d → d.jsonList quote = c.jsonList quote →
        d.words = c.words := by
  refine ⟨fun ch held => Text.isAscii_eq_true_iff.mp (isAscii_of_mem_jsonList held), ?_, ?_,
    fun d hd same => ?_⟩
  · refine ⟨c.words.map (c.jsonOf quote), rfl, ?_⟩
    simp only [List.forall₂_map_right_iff, List.forall₂_same]
    intro w _
    constructor
    · intro missing
      exact if_pos missing
    · have value := (denotes_jsonOf table c w).read_eq
      rw [String.ofList_toList] at value
      exact ⟨_, value, c.readsAs_jsonValue w⟩
  · refine ⟨_, read_jsonList table c, ?_⟩
    simp only [List.forall₂_map_right_iff, List.forall₂_same]
    intro w _
    exact c.readsAs_jsonValue w
  · exact words_eq_of_jsonList table h.wellFormed hd.wellFormed same

/-- A quote with a control, a missing element, and a character beyond the basic plane. -/
theorem json_list_of_three_texts :
    let texts : Column .string := ofSlots #["\"\x1f", "", "😀"] 3
    texts.jsonList Text.jsonLiteral = "\"\\\"\\u001f\", null, \"\\ud83d\\ude00\"" ∧
      ∃ a b, Json.read ("[" ++ texts.jsonList Text.jsonLiteral ++ "]") =
          some (.array [a, .null, b]) ∧
        texts.ReadsAs "\"\x1f" a ∧ texts.ReadsAs "😀" b := by
  intro texts
  have reached : Reachable {} texts := .ofWords ["\"\x1f", "", "😀"] rfl
  have table : Text.FollowsTable Text.jsonLiteral := fun _ => rfl
  obtain ⟨-, -, ⟨values, read, each⟩, -⟩ := Reachable.json_faithful reached table
  have shown : texts.words = ["\"\x1f", "", "😀"] := rfl
  rw [shown] at each
  refine ⟨by decide +kernel, ?_⟩
  match values, each with
  | [a, v, b], .cons first (.cons missing (.cons last .nil)) =>
    have null : v = .null := missing
    exact ⟨a, b, null ▸ read, first, last⟩

end Column

end Columnar

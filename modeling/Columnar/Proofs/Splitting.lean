import Mathlib.Data.List.DropRight
import Columnar.Text.Csv

/-!
# Splitting of unquoted items

A field that does not open with a quote ends at the next comma and is trimmed. Text in which no
field does is therefore split at every comma, and items that hold neither commas nor quotes nor
white space are what a list of them is split into again.
-/

namespace Columnar.Text

variable {c : Char} {f rest : List Char}

/-! ## White space -/

/-- Skipping white space stops at a comma at the latest. -/
theorem trimStart_append_comma (f rest : List Char) :
    trimStart (f ++ ',' :: rest) = trimStart f ++ ',' :: rest := by
  have comma : isWhiteSpace ',' = false := by decide
  induction f with
  | nil => simp [trimStart, comma]
  | cons c f ih =>
    unfold trimStart at ih ⊢
    rw [List.cons_append, List.dropWhile_cons, List.dropWhile_cons]
    split
    · exact ih
    · rfl

theorem trimStart_trimStart (f : List Char) : trimStart (trimStart f) = trimStart f :=
  List.dropWhile_idempotent _ _

theorem trim_trimStart (f : List Char) : trim (trimStart f) = trim f := by
  rw [trim, trimStart_trimStart, trim]

/-- Nothing is trimmed off a text whose ends are no white space. -/
theorem trim_eq_self (head : ∀ c, f.head? = some c → isWhiteSpace c = false)
    (last : ∀ c, f.getLast? = some c → isWhiteSpace c = false) : trim f = f := by
  have start (g : List Char) (first : ∀ c, g.head? = some c → isWhiteSpace c = false) :
      trimStart g = g := by
    cases g with
    | nil => rfl
    | cons c g => simp [trimStart, first c rfl]
  have back : trimStart f.reverse = f.reverse := by
    apply start
    intro c first
    apply last
    rwa [List.head?_reverse] at first
  rw [trim, start f head, back, List.reverse_reverse]

theorem isWhiteSpace_head_trimStart (start : (trimStart f).head? = some c) :
    isWhiteSpace c = false := by
  have law := List.head?_dropWhile_not isWhiteSpace f
  rw [trimStart] at start
  rw [start] at law
  simpa using law

theorem getLast?_trimStart (end_ : (trimStart f).getLast? = some c) : f.getLast? = some c := by
  obtain ⟨dropped, whole⟩ := List.dropWhile_suffix (l := f) isWhiteSpace
  rw [← whole, List.getLast?_append_of_ne_nil]
  · exact end_
  · intro empty
    rw [trimStart, empty] at end_
    cases end_

/-- What is trimmed has no white space at its ends. -/
theorem isWhiteSpace_ends_trim :
    (∀ c, (trim f).head? = some c → isWhiteSpace c = false) ∧
      ∀ c, (trim f).getLast? = some c → isWhiteSpace c = false := by
  constructor
  · intro c start
    rw [trim, List.head?_reverse] at start
    have last := getLast?_trimStart start
    rw [List.getLast?_reverse] at last
    exact isWhiteSpace_head_trimStart last
  · intro c last
    rw [trim, List.getLast?_reverse] at last
    exact isWhiteSpace_head_trimStart last

/-- Trimming drops nothing but white space. -/
theorem count_trim (black : isWhiteSpace c = false) (f : List Char) :
    (trim f).count c = f.count c := by
  have start (g : List Char) : (trimStart g).count c = g.count c := by
    induction g with
    | nil => rfl
    | cons d g ih =>
      rw [trimStart, List.dropWhile_cons]
      split
      case isTrue space =>
        have other : d ≠ c := by grind
        exact ih.trans (List.count_cons_of_ne other).symm
      case isFalse => rfl
  rw [trim, List.count_reverse, start, List.count_reverse, start]

/-- Nothing is trimmed off a text without white space. -/
theorem trim_of_forall (bare : ∀ c ∈ f, isWhiteSpace c = false) : trim f = f := by
  apply trim_eq_self
  · intro c first
    exact bare c (List.mem_of_mem_head? first)
  · intro c last
    exact bare c (List.mem_of_mem_getLast? last)

/-! ## Fields -/

theorem items_eq (cs : List Char) :
    items cs =
      match scanItem cs with
      | (item, _ :: rest) => item :: items rest
      | (item, []) => [item] := by
  rw [items]
  split <;> simp_all

/-- The first character of a field that is no white space is no quote, so the field is no quoted
item. -/
def Unquoted (f : List Char) : Prop := (trimStart f).head? ≠ some '"'

theorem scanItem_of_unquoted (unquoted : Unquoted f) :
    scanItem f = (trim ((trimStart f).takeWhile (· ≠ ',')), (trimStart f).dropWhile (· ≠ ',')) := by
  unfold Unquoted at unquoted
  unfold scanItem
  grind

theorem unquoted_of_not_mem (bare : '"' ∉ f) : Unquoted f := by
  intro quoted
  have held := List.mem_of_mem_head? quoted
  exact bare ((List.dropWhile_sublist _).subset held)

theorem unquoted_append_comma (unquoted : Unquoted f) : Unquoted (f ++ ',' :: rest) := by
  unfold Unquoted at unquoted ⊢
  rw [trimStart_append_comma]
  cases start : trimStart f with
  | nil => simp
  | cons c g => rwa [start] at unquoted

theorem not_mem_trimStart (last : ',' ∉ f) : ',' ∉ trimStart f :=
  fun held => last ((List.dropWhile_sublist _).subset held)

section

variable (bare : ',' ∉ f) (unquoted : Unquoted f)
include bare unquoted

theorem scanItem_append_comma : scanItem (f ++ ',' :: rest) = (trim f, ',' :: rest) := by
  have free := not_mem_trimStart bare
  have before (c : Char) (held : c ∈ trimStart f) : decide (c ≠ ',') = true := by grind
  rw [scanItem_of_unquoted (unquoted_append_comma unquoted), trimStart_append_comma,
    List.takeWhile_append_of_pos before, List.dropWhile_append_of_pos before]
  simp [trim_trimStart]

theorem scanItem_of_not_mem : scanItem f = (trim f, []) := by
  have free := not_mem_trimStart bare
  have before (c : Char) (held : c ∈ trimStart f) : decide (c ≠ ',') = true := by grind
  rw [scanItem_of_unquoted unquoted, List.takeWhile_eq_self_iff.mpr before,
    List.dropWhile_eq_nil_iff.mpr before, trim_trimStart]

/-- An unquoted field before a comma is trimmed to an item; splitting goes on behind the comma. -/
theorem items_append_comma : items (f ++ ',' :: rest) = trim f :: items rest := by
  rw [items_eq, scanItem_append_comma bare unquoted]

theorem items_of_not_mem : items f = [trim f] := by
  rw [items_eq, scanItem_of_not_mem bare unquoted]

end

theorem items_cons_of_isWhiteSpace {c : Char} (space : isWhiteSpace c = true) (cs : List Char) :
    items (c :: cs) = items cs := by
  have same : scanItem (c :: cs) = scanItem cs := by simp [scanItem, trimStart, space]
  rw [items_eq, same, ← items_eq]

/-! ## Text without quoted items -/

theorem length_splitOn {α : Type} [BEq α] [LawfulBEq α] (a : α) (l : List α) :
    (l.splitOn a).length = l.count a + 1 := by
  induction l with
  | nil => simp
  | cons b l ih =>
    rw [List.splitOn_cons_eq_if_modifyHead, List.count_cons]
    split <;> simp [ih]

/-- Splitting field by field: at every comma there is a next field. -/
theorem items_eq_map_splitOn (cs : List Char) (unquoted : ∀ f ∈ cs.splitOn ',', Unquoted f) :
    items cs = (cs.splitOn ',').map trim := by
  induction size : cs.length using Nat.strong_induction_on generalizing cs with
  | h size ih =>
    subst size
    by_cases comma : ',' ∈ cs
    · obtain ⟨f, rest, rfl, bare⟩ := List.eq_append_cons_of_mem comma
      rw [List.splitOn_append_cons_self_of_not_mem bare, List.forall_mem_cons] at unquoted
      obtain ⟨first, others⟩ := unquoted
      have shorter : rest.length < (f ++ ',' :: rest).length := by simp; omega
      rw [items_append_comma bare first, ih _ shorter rest others rfl,
        List.splitOn_append_cons_self_of_not_mem bare, List.map_cons]
    · rw [List.splitOn_eq_singleton comma] at unquoted ⊢
      exact items_of_not_mem comma (unquoted cs (by simp))

/-- A text that is not blank and has no quoted items is split at every comma, and white space is
dropped from both ends of each field. Every comma parts two items, empty ones included. -/
theorem splits_at_commas (s : String) (shown : isBlank s.toList = false)
    (unquoted : ∀ f ∈ s.toList.splitOn ',', Unquoted f) :
    splitCsv s = (s.toList.splitOn ',').map (fun f =>
        String.ofList ((f.dropWhile isWhiteSpace).rdropWhile isWhiteSpace)) ∧
      (splitCsv s).length = s.toList.count ',' + 1 := by
  have split : splitCsv s = (s.toList.splitOn ',').map fun f => String.ofList (trim f) := by
    simp [splitCsv, shown, items_eq_map_splitOn _ unquoted]
  exact ⟨split, by rw [split, List.length_map, length_splitOn]⟩

/-- Quotes inside a field, an empty field and one behind the last comma. -/
theorem items_of_quotes_inside :
    let s := "a, b\"c\" ,, "
    isBlank s.toList = false ∧ (∀ f ∈ s.toList.splitOn ',', Unquoted f) ∧
      splitCsv s = ["a", "b\"c\"", "", ""] := by
  intro s
  have shown : isBlank s.toList = false := by decide
  have fields : s.toList.splitOn ',' = [['a'], [' ', 'b', '"', 'c', '"', ' '], [], [' ']] := by decide
  have unquoted : ∀ f ∈ s.toList.splitOn ',', Unquoted f := by
    rw [fields]
    unfold Unquoted
    decide
  refine ⟨shown, unquoted, ?_⟩
  rw [(splits_at_commas s shown unquoted).1, fields]
  rfl

/-! ## Lists of plain items -/

/-- An item that stands in a list as it is. -/
structure IsPlain (f : List Char) : Prop where
  ne_nil : f ≠ []
  comma_not_mem : ',' ∉ f
  quote_not_mem : '"' ∉ f
  isWhiteSpace_eq_false : ∀ c ∈ f, isWhiteSpace c = false

theorem IsPlain.unquoted (plain : IsPlain f) : Unquoted f :=
  unquoted_of_not_mem plain.quote_not_mem

theorem items_intercalate (fields : List (List Char)) (some_field : fields ≠ [])
    (plain : ∀ f ∈ fields, IsPlain f) : items ([',', ' '].intercalate fields) = fields := by
  induction fields with
  | nil => exact absurd rfl some_field
  | cons f fields ih =>
    have first := plain f (by simp)
    have trimmed := trim_of_forall first.isWhiteSpace_eq_false
    cases fields with
    | nil =>
      rw [List.intercalate_singleton, items_of_not_mem first.comma_not_mem first.unquoted, trimmed]
    | cons g fields =>
      have others := ih (by simp) fun h held => plain h (List.mem_cons_of_mem _ held)
      rw [List.intercalate_cons_cons, List.append_assoc]
      change items (f ++ ',' :: (' ' :: [',', ' '].intercalate (g :: fields))) = _
      rw [items_append_comma first.comma_not_mem first.unquoted,
        items_cons_of_isWhiteSpace (by decide), trimmed, others]

/-- A list of plain items is split into them again. -/
theorem splitCsv_intercalate (fields : List String) (plain : ∀ s ∈ fields, IsPlain s.toList) :
    splitCsv (", ".intercalate fields) = fields := by
  cases fields with
  | nil => rfl
  | cons s fields =>
    have lists : ∀ f ∈ (s :: fields).map String.toList, IsPlain f := by simpa using plain
    have list : (", ".intercalate (s :: fields)).toList =
        [',', ' '].intercalate ((s :: fields).map String.toList) := String.toList_intercalate
    have first := lists s.toList (by simp)
    have shown : isBlank (", ".intercalate (s :: fields)).toList = false := by
      obtain ⟨c, held⟩ := List.exists_mem_of_ne_nil _ first.ne_nil
      refine List.all_eq_false.mpr ⟨c, ?_, by simp [first.isWhiteSpace_eq_false c held]⟩
      rw [list]
      cases fields <;> simp [List.intercalate_cons_cons, held]
    rw [splitCsv, shown, list, items_intercalate _ (by simp) lists]
    simp

end Columnar.Text

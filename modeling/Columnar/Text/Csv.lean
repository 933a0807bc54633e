import Columnar.Numeral.Digits
import Columnar.Text.Utf16
import Columnar.Text.WhiteSpace

/-!
# Comma-separated items

Splitting of text into items. White space before an item is skipped. An item that then starts with
a quote runs to the closing quote, where a doubled quote stands for one and backslash escapes are
decoded; what follows up to the next comma is dropped. Any other item runs to the next comma and is
trimmed. Blank text has no items.
-/

namespace Columnar.Text

/-- The four characters after `\u` as a code unit: digits of base 16, where the reading of the
number also takes a plus sign in front of three of them. -/
def hexUnit (cs : List Char) : Option CodeUnit :=
  if cs.length = 4 then
    let digits := if cs.head? = some '+' then cs.drop 1 else cs
    (Numeral.readNat 16 digits).map (BitVec.ofNat 16)
  else none

/-- The code units of a quoted item's text once its escapes are decoded. -/
def unescape (cs : List Char) : List CodeUnit :=
  match cs with
  | [] => []
  | '\\' :: 'n' :: rest => Utf16.encodeChar '\n' ++ unescape rest
  | '\\' :: 'r' :: rest => Utf16.encodeChar '\r' ++ unescape rest
  | '\\' :: 't' :: rest => Utf16.encodeChar '\t' ++ unescape rest
  | '\\' :: 'u' :: rest =>
    (match hexUnit (rest.take 4) with
    | some unit => [unit]
    | none => Utf16.encode ('\\' :: 'u' :: rest.take 4)) ++ unescape (rest.drop 4)
  | '\\' :: c :: rest => Utf16.encodeChar c ++ unescape rest
  | c :: rest => Utf16.encodeChar c ++ unescape rest
  termination_by cs.length

/-- Reads up to the closing quote: the raw text inside, in which escapes stay and a doubled quote
has become one, and the characters after the quote. -/
def scanQuoted : List Char → List Char × List Char
  | [] => ([], [])
  | '"' :: '"' :: rest => let (raw, after) := scanQuoted rest; ('"' :: raw, after)
  | '"' :: rest => ([], rest)
  | '\\' :: c :: rest => let (raw, after) := scanQuoted rest; ('\\' :: c :: raw, after)
  | c :: rest => let (raw, after) := scanQuoted rest; (c :: raw, after)

/-- One item at the start of the text, and what stands behind it, from the comma on. -/
def scanItem (cs : List Char) : List Char × List Char :=
  match trimStart cs with
  | '"' :: rest =>
    let (raw, after) := scanQuoted rest
    (Utf16.decodeLossy (unescape raw), after.dropWhile (· ≠ ','))
  | cs => (trim (cs.takeWhile (· ≠ ',')), cs.dropWhile (· ≠ ','))

theorem length_scanQuoted_le (cs : List Char) : (scanQuoted cs).2.length ≤ cs.length := by
  fun_induction scanQuoted cs <;> simp_all <;> omega

theorem length_dropWhile_le {α : Type} (f : α → Bool) (l : List α) :
    (l.dropWhile f).length ≤ l.length :=
  (List.dropWhile_sublist f).length_le

theorem length_scanItem_le (cs : List Char) : (scanItem cs).2.length ≤ cs.length := by
  have trimmed : (trimStart cs).length ≤ cs.length := length_dropWhile_le _ _
  unfold scanItem
  split
  · next rest h =>
    have scanned := length_scanQuoted_le rest
    have dropped := length_dropWhile_le (· ≠ ',') (scanQuoted rest).2
    simp only [h, List.length_cons] at trimmed
    simp only
    omega
  · exact Nat.le_trans (length_dropWhile_le _ _) trimmed

/-- The items of a text that is not blank. -/
def items (cs : List Char) : List (List Char) :=
  match _h : scanItem cs with
  | (item, _ :: rest) => item :: items rest
  | (item, []) => [item]
  termination_by cs.length
  decreasing_by
    have := length_scanItem_le cs
    simp only [_h, List.length_cons] at this
    omega

/-- Splits comma-separated text. -/
def splitCsv (s : String) : List String :=
  if isBlank s.toList then [] else (items s.toList).map String.ofList

end Columnar.Text

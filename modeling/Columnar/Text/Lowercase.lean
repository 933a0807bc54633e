import Columnar.Text.CaseTables

/-!
# Full lower-casing

Every character is replaced by its lower-case mapping. Two mappings are not one to one: the dotted
capital I becomes an i followed by a combining dot, and a capital sigma becomes the final form
where it ends a word, that is, where a cased letter precedes it and none follows it, letters being
looked for past the case-ignorable characters in between.
-/

namespace Columnar.Text

def isCased (c : Char) : Bool := inRanges casedRanges c.toNat

def isCaseIgnorable (c : Char) : Bool := inRanges caseIgnorableRanges c.toNat

/-- True when the code point is one of those in a run of the table. -/
def inRun (n : Nat) : Nat × Nat × Nat × Int → Bool
  | (first, last, stride, _) => first ≤ n && n ≤ last && (n - first) % stride == 0

/-- The lower-case mapping of a character taken by itself. -/
def lowerChar (c : Char) : List Char :=
  if c = 'İ' then ['i', '\u0307'] else
  match lowercaseRuns.find? (inRun c.toNat) with
  | some (_, _, _, shift) => [Char.ofNat (c.toNat + shift).toNat]
  | none => [c]

/-- True when the first character that is not case-ignorable is a cased letter. -/
def meetsCased (cs : List Char) : Bool :=
  match cs.dropWhile isCaseIgnorable with
  | c :: _ => isCased c
  | [] => false

/-- Lower-cases what follows `before`, the characters already passed, nearest first. -/
def lowercaseAfter (before : List Char) : List Char → List Char
  | [] => []
  | c :: rest =>
    (if c = 'Σ' then
      if meetsCased before && !meetsCased rest then ['ς'] else ['σ']
    else lowerChar c) ++ lowercaseAfter (c :: before) rest

def lowercase (s : String) : String := String.ofList (lowercaseAfter [] s.toList)

end Columnar.Text

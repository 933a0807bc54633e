import Columnar.Text.Escape
import Columnar.Text.Lowercase

/-!
# Lower-casing

The runs of the table map to code points that lie in no run themselves, so a text in lower case stays
as it is. On ASCII the mappings are those of the letters from A to Z, and only the dotted capital I
has a mapping of more than one character.

## Main statements

* `Text.lowercase_lowercase`: lower-casing twice is lower-casing once.
* `Text.lowercase_of_isAscii`: the lower case of a text in ASCII.
* `Text.length_lowercaseAfter`: the length of a text in lower case.
-/

namespace Columnar.Text

variable {c d : Char} {before cs : List Char} {n : Nat} {run : Nat × Nat × Nat × Int}

/-- The code points with a mapping, that of the dotted capital I first. -/
def mappedRuns : List (Nat × Nat × Nat × Int) := (0x130, 0x130, 2, 0) :: lowercaseRuns

/-- The code point has no mapping. -/
def isLower (n : Nat) : Bool := mappedRuns.all fun run => !inRun n run

/-! ## The table -/

/-- No code point from `low` to `high` in steps of `stride` lies in the run: they are below it or
above it, or odd where it is even. -/
def apart (low high stride : Nat) : Nat × Nat × Nat × Int → Bool
  | (first, last, step, _) =>
    high < first || last < low ||
      (step == 2 && (low + first) % 2 == 1 && (stride == 2 || low == high))

/-- The code points that a run maps to are those of characters without a mapping. -/
def settles : Nat × Nat × Nat × Int → Bool
  | (first, last, stride, shift) =>
    let low := (first + shift).toNat
    let high := (last + shift).toNat
    low != 0 && (high < 0xD800 || 0xDFFF < low && high < 0x110000) &&
      mappedRuns.all (apart low high stride)

theorem all_settles : lowercaseRuns.all settles = true := by decide +kernel

theorem inRun_of_apart {low high stride i : Nat} (clear : apart low high stride run = true)
    (within : low + i * stride ≤ high) : inRun (low + i * stride) run = false := by
  obtain ⟨first, last, step, shift⟩ := run
  simp only [apart, Bool.or_eq_true, Bool.and_eq_true, decide_eq_true_eq, beq_iff_eq] at clear
  simp only [inRun, Bool.and_eq_false_iff, decide_eq_false_iff_not, beq_eq_false_iff_ne]
  rcases clear with (below | above) | ⟨⟨rfl, odd⟩, rfl | rfl⟩
  · omega
  · omega
  · omega
  · have start : i * stride = 0 := by omega
    omega

/-- What a run maps to is a character without a mapping. -/
theorem isLower_of_inRun (listed : run ∈ lowercaseRuns) (held : inRun n run = true) :
    isLower (n + run.2.2.2).toNat = true ∧ (n + run.2.2.2).toNat.isValidChar := by
  have settled := List.all_eq_true.mp all_settles run listed
  obtain ⟨first, last, stride, shift⟩ := run
  simp only [inRun, Bool.and_eq_true, decide_eq_true_eq, beq_iff_eq] at held
  obtain ⟨⟨lower, upper⟩, step⟩ := held
  simp only [settles, Bool.and_eq_true, Bool.or_eq_true, decide_eq_true_eq, bne_iff_ne] at settled
  obtain ⟨⟨positive, valid⟩, clear⟩ := settled
  have whole := Nat.div_add_mod (n - first) stride
  have image : (n + shift).toNat = (first + shift).toNat + (n - first) / stride * stride := by
    rw [Nat.mul_comm]
    omega
  refine ⟨List.all_eq_true.mpr fun other mapped => ?_, ?_⟩
  · have free := inRun_of_apart (List.all_eq_true.mp clear other mapped)
      (show (first + shift).toNat + (n - first) / stride * stride ≤ _ by omega)
    rw [image, free]
    rfl
  · simp only [Nat.isValidChar]
    omega

/-! ## Single characters -/

theorem toNat_ofNat_of_isValidChar (valid : n.isValidChar) : (Char.ofNat n).toNat = n := by
  rw [Char.ofNat, dif_pos valid]
  rfl

theorem isLower_toNat_iff :
    isLower c.toNat = true ↔ c ≠ 'İ' ∧ lowercaseRuns.find? (inRun c.toNat) = none := by
  have dotted : inRun c.toNat (0x130, 0x130, 2, 0) = true ↔ c = 'İ' := by
    rw [← Char.toNat_inj]
    simp only [inRun, Bool.and_eq_true, decide_eq_true_eq, beq_iff_eq, Char.reduceToNat]
    omega
  simp [isLower, mappedRuns, ← dotted]

theorem lowerChar_of_isLower (lower : isLower c.toNat = true) : lowerChar c = [c] := by
  obtain ⟨plain, free⟩ := isLower_toNat_iff.mp lower
  rw [lowerChar, if_neg plain, free]

theorem isLower_of_mem_lowerChar (held : d ∈ lowerChar c) : isLower d.toNat = true := by
  unfold lowerChar at held
  split at held
  case isTrue =>
    have both : isLower 0x69 = true ∧ isLower 0x307 = true := by decide +kernel
    simp only [List.mem_cons, List.not_mem_nil, or_false] at held
    rcases held with rfl | rfl
    · exact both.1
    · exact both.2
  case isFalse plain =>
    split at held
    case h_1 found =>
      obtain ⟨lower, valid⟩ :=
        isLower_of_inRun (List.mem_of_find?_eq_some found) (List.find?_some found)
      rw [List.mem_singleton.mp held, toNat_ofNat_of_isValidChar valid]
      exact lower
    case h_2 free =>
      rw [List.mem_singleton.mp held]
      exact isLower_toNat_iff.mpr ⟨plain, free⟩

/-- On ASCII only the letters from A to Z have a mapping. -/
theorem lowerChar_of_isAscii (ascii : isAscii c = true) : lowerChar c = [c.toLower] := by
  have table : ∀ n < 0x80, lowerChar (Char.ofNat n) = [(Char.ofNat n).toLower] := by decide +kernel
  have mapped := table c.toNat (of_decide_eq_true ascii)
  rwa [Char.ofNat_toNat] at mapped

theorem length_lowerChar (c : Char) : (lowerChar c).length = if c = 'İ' then 2 else 1 := by
  unfold lowerChar
  split
  · rfl
  · split <;> rfl

/-! ## Texts -/

theorem lowercaseAfter_of_isLower (lower : ∀ c ∈ cs, isLower c.toNat = true) :
    lowercaseAfter before cs = cs := by
  induction cs generalizing before with
  | nil => rfl
  | cons c cs ih =>
    have first := lower c List.mem_cons_self
    have plain : c ≠ 'Σ' := by
      rintro rfl
      exact absurd first (by decide +kernel)
    rw [lowercaseAfter, if_neg plain, lowerChar_of_isLower first,
      ih fun d held => lower d (List.mem_cons_of_mem c held)]
    rfl

theorem isLower_of_mem_lowercaseAfter (held : d ∈ lowercaseAfter before cs) :
    isLower d.toNat = true := by
  induction cs generalizing before with
  | nil => cases held
  | cons c cs ih =>
    rw [lowercaseAfter, List.mem_append] at held
    rcases held with first | later
    · have sigmas : isLower 0x3C2 = true ∧ isLower 0x3C3 = true := by decide +kernel
      split at first
      case isTrue =>
        split at first
        · rw [List.mem_singleton.mp first]
          exact sigmas.1
        · rw [List.mem_singleton.mp first]
          exact sigmas.2
      case isFalse => exact isLower_of_mem_lowerChar first
    · exact ih later

/-- A text in lower case stays as it is. -/
theorem lowercase_lowercase (s : String) : lowercase (lowercase s) = lowercase s := by
  rw [lowercase, lowercase, String.toList_ofList,
    lowercaseAfter_of_isLower fun _ => isLower_of_mem_lowercaseAfter]

/-- In ASCII, lower-casing replaces the letters from A to Z and nothing else. -/
theorem lowercaseAfter_of_isAscii (ascii : ∀ c ∈ cs, isAscii c = true) :
    lowercaseAfter before cs = cs.map Char.toLower := by
  induction cs generalizing before with
  | nil => rfl
  | cons c cs ih =>
    have first := ascii c List.mem_cons_self
    have plain : c ≠ 'Σ' := by
      rintro rfl
      exact absurd first (by decide)
    rw [lowercaseAfter, if_neg plain, lowerChar_of_isAscii first,
      ih fun d held => ascii d (List.mem_cons_of_mem c held)]
    rfl

theorem lowercase_of_isAscii {s : String} (ascii : ∀ c ∈ s.toList, isAscii c = true) :
    lowercase s = s.toLower := by
  rw [lowercase, lowercaseAfter_of_isAscii ascii, ← String.toList_inj, String.toList_ofList]
  exact String.toList_map.symm

/-- Only the dotted capital I makes a text longer. -/
theorem length_lowercaseAfter (before cs : List Char) :
    (lowercaseAfter before cs).length = cs.length + cs.count 'İ' := by
  induction cs generalizing before with
  | nil => rfl
  | cons c cs ih =>
    rw [lowercaseAfter, List.length_append, ih, List.length_cons, List.count_cons]
    split
    case isTrue sigma =>
      subst sigma
      split <;> simp <;> omega
    case isFalse =>
      rw [length_lowerChar]
      grind

end Columnar.Text

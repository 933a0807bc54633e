import Mathlib.Data.List.TakeWhile
import Columnar.Proofs.WholeNumbers

/-!
# Switching values

Switching compares words: a column of integers looks for the word that it would store for the first
text and puts there the one that it would store for the second. A text without an integer of the
kind is stored as the sentinel, which is the word of the greatest integer, too. So it finds the
missing elements while the flag is up, and those of the greatest integer while it is down, whether
the text is blank or not.

## Main definitions

* `Column.IsSought`: the elements that a switch from a text is for.
* `Column.Strays`: the elements that it finds although it is not for them.
* `Column.Switched`, `Column.SwitchedFrom`: how a column differs from another one after a switch.
-/

namespace Columnar

variable {k : Kind} {env : Environment}

/-- The places at which a list changes are those of the elements that are changed. -/
theorem countP_changed {α : Type} [DecidableEq α] (f : α → α) (l : List α) :
    ((List.range l.length).countP fun i => decide ((l.map f)[i]? ≠ l[i]?)) =
      l.countP fun a => decide (f a ≠ a) := by
  induction l with
  | nil => rfl
  | cons a rest ih =>
    rw [List.length_cons, List.range_succ_eq_map, List.countP_cons, List.countP_map,
      List.countP_cons, ← ih]
    simp [Function.comp_def]

/-- A blank text denotes nothing. -/
theorem Numeral.integerOfText_of_isBlank {cs : List Char} (blank : Text.isBlank cs = true) :
    integerOfText cs = none := by
  have start : Text.trimStart cs = [] :=
    List.dropWhile_eq_nil_iff.mpr (List.all_eq_true.mp blank)
  have nothing : Text.trim cs = [] := by rw [Text.trim, start]; rfl
  rw [integerOfText, nothing]
  rfl

/-- A word is replaced where it stands. -/
def Word.switch (old new w : Word k) : Word k := if w = old then new else w

namespace Column

variable {c d : Column k}

/-! ## The elements that a text stands for -/

/-- An element that a switch from a text is for: it reads as the integer that the text denotes, or it
is missing and the text is blank. -/
def IsSought (c : Column k) (source : String) (w : Word k) : Prop :=
  (∃ n, c.integerOf w = some n ∧ Numeral.integerOfText source.toList = some n) ∨
    c.readsMissing w = true ∧ Text.isBlank source.toList = true

/-- An element that a switch from a text finds for its word alone. -/
inductive Strays (c : Column k) (source : String) (w : Word k) : Prop where
  /-- It is missing, and the text is stored as the sentinel although it is not blank. -/
  | missing (reads : c.readsMissing w = true) (written : Text.isBlank source.toList = false)
    (none_or_greatest : k.Lacks (Numeral.integerOfText source.toList) ∨
      Numeral.integerOfText source.toList = some k.greatest)
  /-- It is the greatest integer, and the text has no integer of the kind. -/
  | greatest (reads : c.integerOf w = some k.greatest)
    (lacks : k.Lacks (Numeral.integerOfText source.toList))

section

variable (integer : k.isInteger = true)
include integer

theorem eq_iff_toInt_eq {old w : Word k} {m n : Int} (value : w.toInt = some m)
    (sought : old.toInt = some n) : w = old ↔ m = n := by
  constructor
  · rintro rfl
    exact Option.some.inj (value.symm.trans sought)
  · rintro rfl
    exact Word.toInt_injective integer (value.trans sought.symm)

theorem matchesWord_iff_eq {old w : Word k} : matchesWord old w = true ↔ w = old := by
  obtain ⟨m, value, -⟩ := w.exists_toInt integer
  obtain ⟨n, sought, -⟩ := old.exists_toInt integer
  rw [matchesWord, Ordering.isEq_iff_eq_eq, Word.compare_eq_compare integer value sought,
    Std.LawfulEqOrd.compare_eq_iff_eq, eq_iff_toInt_eq integer value sought]

theorem readsMissing_iff_greatest {w : Word k} {m : Int} (value : w.toInt = some m) :
    c.readsMissing w = true ↔ c.flag = true ∧ m = k.greatest := by
  rw [readsMissing, Bool.and_eq_true, Word.isSentinel_iff_toInt integer, value, Option.some.injEq]

omit integer in
theorem integerOf_of_present {w : Word k} {m : Int} (value : w.toInt = some m)
    (present : c.readsMissing w = false) : c.integerOf w = some m := by
  simp [integerOf, present, value]

omit integer in
theorem integerOf_of_missing {w : Word k} (missing : c.readsMissing w = true) :
    c.integerOf w = none := if_pos missing

omit integer in
/-- Only what reads as its integer reads as an integer. -/
theorem toInt_of_integerOf {w : Word k} {n : Int} (shows : c.integerOf w = some n) :
    w.toInt = some n := by
  unfold integerOf at shows
  split at shows
  · cases shows
  · exact shows

theorem toInt_of_readsMissing {w : Word k} (missing : c.readsMissing w = true) :
    w.toInt = some k.greatest :=
  (Word.isSentinel_iff_toInt integer).mp (Bool.and_eq_true_iff.mp missing).2

theorem Strays.not_isSought {source : String} {w : Word k} (strays : c.Strays source w) :
    ¬ c.IsSought source w := by
  cases strays with
  | missing reads written none_or_greatest =>
    rintro (⟨n, shows, -⟩ | ⟨-, blank⟩)
    · cases (integerOf_of_missing reads).symm.trans shows
    · cases written.symm.trans blank
  | greatest reads lacks =>
    rintro (⟨n, shows, denoted⟩ | ⟨missing, -⟩)
    · obtain ⟨m, value, inside⟩ := w.exists_toInt integer
      cases value.symm.trans (toInt_of_integerOf shows)
      exact lacks _ denoted inside
    · cases (integerOf_of_missing missing).symm.trans reads

/-- A text without an integer of the kind finds the sentinels. -/
theorem toInt_eq_greatest_iff {source : String} {w : Word k}
    (lacks : k.Lacks (Numeral.integerOfText source.toList)) :
    w.toInt = some k.greatest ↔ c.IsSought source w ∨ c.Strays source w := by
  constructor
  · intro last
    cases reads : c.readsMissing w with
    | true =>
      cases blank : Text.isBlank source.toList with
      | true => exact .inl (.inr ⟨reads, blank⟩)
      | false => exact .inr (.missing reads blank (.inl lacks))
    | false => exact .inr (.greatest (integerOf_of_present last reads) lacks)
  · rintro ((⟨n, shows, denoted⟩ | ⟨missing, -⟩) | (⟨missing, -, -⟩ | ⟨shows, -⟩))
    · obtain ⟨m, value, inside⟩ := w.exists_toInt integer
      cases value.symm.trans (toInt_of_integerOf shows)
      exact absurd inside (lacks _ denoted)
    · exact toInt_of_readsMissing integer missing
    · exact toInt_of_readsMissing integer missing
    · exact toInt_of_integerOf shows

/-- A text that denotes an integer of the kind finds what reads as that integer, and if it is the
greatest one, what is missing. -/
theorem toInt_eq_some_iff {source : String} {w : Word k} {n : Int}
    (denoted : Numeral.integerOfText source.toList = some n) (inside : k.InRange n) :
    w.toInt = some n ↔ c.IsSought source w ∨ c.Strays source w := by
  have held : ¬ k.Lacks (Numeral.integerOfText source.toList) := fun lacks => lacks n denoted inside
  have written : Text.isBlank source.toList = false := by
    cases blank : Text.isBlank source.toList with
    | false => rfl
    | true => cases (Numeral.integerOfText_of_isBlank blank).symm.trans denoted
  constructor
  · intro value
    cases reads : c.readsMissing w with
    | true =>
      have last := (readsMissing_iff_greatest integer value).mp reads
      exact .inr (.missing reads written (.inr (last.2 ▸ denoted)))
    | false => exact .inl (.inl ⟨n, integerOf_of_present value reads, denoted⟩)
  · rintro ((⟨m, shows, same⟩ | ⟨-, blank⟩) | (⟨missing, -, lacks | last⟩ | ⟨-, lacks⟩))
    · cases denoted.symm.trans same
      exact toInt_of_integerOf shows
    · cases written.symm.trans blank
    · exact absurd lacks held
    · cases denoted.symm.trans last
      exact toInt_of_readsMissing integer missing
    · exact absurd lacks held

/-- The word that stands for a text stands where a switch from the text finds an element. -/
theorem eq_iff_isSought_or_strays {source : String} {old w : Word k}
    (represents : old.Represents (Numeral.integerOfText source.toList)) :
    w = old ↔ c.IsSought source w ∨ c.Strays source w := by
  obtain ⟨m, value, -⟩ := w.exists_toInt integer
  by_cases lacks : k.Lacks (Numeral.integerOfText source.toList)
  · rw [represents.lacking lacks, eq_iff_toInt_eq integer value (Word.toInt_sentinel integer),
      ← toInt_eq_greatest_iff integer lacks, value, Option.some_inj]
  · obtain ⟨n, denoted, inside⟩ : ∃ n, Numeral.integerOfText source.toList = some n ∧
        k.InRange n := by
      simpa only [Kind.Lacks, not_forall, not_not, exists_prop] using lacks
    rw [eq_iff_toInt_eq integer value (represents.held n denoted inside),
      ← toInt_eq_some_iff integer denoted inside, value, Option.some_inj]

end

/-! ## The switch -/

/-- Storing the text at a place puts the same word there as a switch to it. -/
theorem exists_run_setText (formed : c.WellFormed) {i : Nat} (inside : i < c.size) (s : String) :
    ∃ e, (setText i s).run c = .ok () e ∧ e.words[i]? = some (stored (Word.ofText k s)) := by
  obtain ⟨words, cap, flag, length, fits, raised, rfl⟩ := wellFormed_iff.mp formed
  have there : i < words.length := inside
  refine ⟨_, (run_setConverted i _).trans (if_pos there), ?_⟩
  simp [there]

section

variable (integer : k.isInteger = true)
include integer

/-- Every word equal to that of the first text is replaced by that of the second, and the number of
words that this changes is returned. -/
theorem exists_run_switchText (formed : c.WellFormed) (source target : String) :
    let new := stored (Word.ofText k target)
    let switch := Word.switch (stored (Word.ofText k source)) new
    ∃ n d, (switchText source target).run c = .ok n d ∧ d.words = c.words.map switch ∧
      d.size = c.size ∧ d.capacity = c.capacity ∧
      n = (c.words.countP fun w => decide (switch w ≠ w)) ∧ (n = 0 → d = c) := by
  obtain ⟨words, cap, flag, length, fits, raised, rfl⟩ := wellFormed_iff.mp formed
  rw [run_switchText length]
  generalize stored (Word.ofText k source) = old
  generalize stored (Word.ofText k target) = new
  have same : (old.compare new).isEq = true ↔ old = new := matchesWord_iff_eq integer
  have found : matchesWord old = fun w => decide (w = old) := by
    funext w
    rw [Bool.eq_iff_iff, matchesWord_iff_eq integer, decide_eq_true_iff]
  have put : (fun w => if matchesWord old w = true then new else w) = Word.switch old new := by
    funext w
    simp [found, Word.switch]
  have kept (fixed : ∀ w ∈ words, Word.switch old new w = w) :
      words.map (Word.switch old new) = words :=
    (List.map_congr_left fixed).trans (List.map_id words)
  simp only [put, words_holding, capacity_holding length]
  split
  case isTrue equal =>
    have idle (w : Word k) : Word.switch old new w = w := by grind [Word.switch]
    exact ⟨0, _, rfl, by simp [kept fun w _ => idle w], rfl, capacity_holding length,
      by simp [idle], fun _ => rfl⟩
  case isFalse different =>
    have apart : old ≠ new := fun alike => different (same.mpr alike)
    have changes (w : Word k) : Word.switch old new w ≠ w ↔ w = old := by grind [Word.switch]
    refine ⟨_, _, rfl, words_holding, by simp, capacity_holding (by simpa using length), ?_,
      fun none => ?_⟩
    · simp only [found, changes]
    · have absent : ∀ w ∈ words, w ≠ old := by simpa [found, List.countP_eq_zero] using none
      simp [none, kept fun w inside => if_neg (absent w inside)]

end

/-- How a switch changes a column: elements only change to what storing the text in their place
gives, and `n` is the number of those that do. -/
structure Switched (c d : Column k) (target : String) (n : Nat) : Prop where
  size : d.size = c.size
  capacity : d.capacity = c.capacity
  stores : ∀ i, i < c.size → d.words[i]? ≠ c.words[i]? →
    ∃ e, (setText i target).run c = .ok () e ∧ d.words[i]? = e.words[i]?
  count : n = (List.range c.size).countP fun i => decide (d.words[i]? ≠ c.words[i]?)

/-- Which elements a switch changes: those that it is for, and those that it finds besides. -/
structure SwitchedFrom (c d : Column k) (source target : String) : Prop where
  found : ∀ (i : Nat) w, c.words[i]? = some w → c.IsSought source w ∨ c.Strays source w →
    ∃ e, (setText i target).run c = .ok () e ∧ d.words[i]? = e.words[i]?
  kept : ∀ (i : Nat) w, c.words[i]? = some w → ¬ c.IsSought source w → ¬ c.Strays source w →
    d.words[i]? = some w

section

variable {source target : String} {old : Word k}
  (words : d.words = c.words.map (Word.switch old (stored (Word.ofText k target))))
include words

theorem getElem?_switched {i : Nat} {w : Word k} (here : c.words[i]? = some w) :
    d.words[i]? = some (Word.switch old (stored (Word.ofText k target)) w) := by
  rw [words, List.getElem?_map, here]
  rfl

theorem getElem?_switched_self {i : Nat} (here : c.words[i]? = some old) :
    d.words[i]? = some (stored (Word.ofText k target)) :=
  (getElem?_switched words here).trans (congrArg some (if_pos rfl))

theorem getElem?_switched_of_ne {i : Nat} {w : Word k} (here : c.words[i]? = some w)
    (other : w ≠ old) : d.words[i]? = some w :=
  (getElem?_switched words here).trans (congrArg some (if_neg other))

theorem stores_switched (formed : c.WellFormed) {i : Nat} (here : c.words[i]? = some old) :
    ∃ e, (setText i target).run c = .ok () e ∧ d.words[i]? = e.words[i]? := by
  have inside : i < c.words.length := (List.getElem?_eq_some_iff.mp here).1
  have length := formed.length_words
  obtain ⟨e, set, there⟩ := exists_run_setText formed (by omega : i < c.size) target
  exact ⟨e, set, (getElem?_switched_self words here).trans there.symm⟩

theorem switched_of_words (formed : c.WellFormed) (size : d.size = c.size)
    (capacity : d.capacity = c.capacity) : c.Switched d target
      (c.words.countP fun w => decide (Word.switch old (stored (Word.ofText k target)) w ≠ w)) where
  size := size
  capacity := capacity
  stores i inside changed := by
    have length := formed.length_words
    have here : c.words[i]? = some c.words[i] := List.getElem?_eq_getElem (by omega)
    refine stores_switched words formed (here.trans (congrArg some ?_))
    by_contra other
    exact changed ((getElem?_switched_of_ne words here other).trans here.symm)
  count := by rw [← formed.length_words, words, countP_changed]

variable (finds : ∀ w, w = old ↔ c.IsSought source w ∨ c.Strays source w)
include finds

theorem switchedFrom_of_words (formed : c.WellFormed) : c.SwitchedFrom d source target where
  found i w here found := by
    obtain rfl := (finds w).mpr found
    exact stores_switched words formed here
  kept i w here unsought unstrayed :=
    getElem?_switched_of_ne words here fun same => ((finds w).mp same).elim unsought unstrayed

/-- Only what is sought is changed if nothing strays, or what does has the new word already. -/
theorem keeps_unsought_iff (disjoint : ∀ w, c.Strays source w → ¬ c.IsSought source w) :
    (∀ (i : Nat) w, c.words[i]? = some w → ¬ c.IsSought source w → d.words[i]? = some w) ↔
      ∀ w ∈ c.words, c.Strays source w → w = stored (Word.ofText k target) := by
  constructor
  · intro keeps w inside strays
    obtain rfl := (finds w).mpr (.inr strays)
    obtain ⟨i, here⟩ := List.getElem?_of_mem inside
    have kept := keeps i w here (disjoint w strays)
    exact Option.some.inj (kept.symm.trans (getElem?_switched_self words here))
  · intro same i w here unsought
    by_cases strays : c.Strays source w
    · obtain rfl := (finds w).mpr (.inr strays)
      refine (getElem?_switched_self words here).trans (congrArg some ?_)
      exact (same w (List.mem_of_getElem? here) strays).symm
    · exact getElem?_switched_of_ne words here fun other =>
        ((finds w).mp other).elim unsought strays

end

/-- A switch puts the word of a text in the place of others, and returns how many elements it
changes. The word is put where an element is sought, and where one strays; all other elements are
kept, and without any to find there is no change at all. So the elements that are not sought keep
their words exactly if those that stray have the new word already. -/
theorem Reachable.switches_text (h : Reachable env c) (integer : k.isInteger = true)
    (source target : String) :
    ∃ n d, (switchText source target).run c = .ok n d ∧ c.Switched d target n ∧
      c.SwitchedFrom d source target ∧
      ((∀ w ∈ c.words, ¬ c.IsSought source w ∧ ¬ c.Strays source w) → n = 0 ∧ d = c) ∧
      ((∀ (i : Nat) w, c.words[i]? = some w → ¬ c.IsSought source w → d.words[i]? = some w) ↔
        ∀ w ∈ c.words, c.Strays source w → w = stored (Word.ofText k target)) := by
  have formed := h.wellFormed
  obtain ⟨n, d, done, words, size, capacity, count, idle⟩ :=
    exists_run_switchText integer formed source target
  have represents := Word.represents_stored (.inl integer) (Numeral.integerOfText source.toList)
  rw [← Word.ofText_eq integer] at represents
  have finds (w : Word k) : w = stored (Word.ofText k source) ↔
      c.IsSought source w ∨ c.Strays source w := eq_iff_isSought_or_strays integer represents
  refine ⟨n, d, done, count ▸ switched_of_words words formed size capacity,
    switchedFrom_of_words words finds formed, fun nothing => ?_,
    keeps_unsought_iff words finds fun w strays => strays.not_isSought integer⟩
  have none : n = 0 := by
    rw [count, List.countP_eq_zero]
    intro w inside
    obtain ⟨unsought, unstrayed⟩ := nothing w inside
    have other : w ≠ stored (Word.ofText k source) := fun same =>
      ((finds w).mp same).elim unsought unstrayed
    simp [Word.switch, other]
  exact ⟨none, idle none⟩

/-- A blank text stands for the missing bytes. -/
theorem bytes_switched_from_blank :
    let c : Column .byte := (ofSlots #[127#8, 5#8, 127#8] 3).withFlag true
    ∃ d, (switchText " " "9").run c = .ok 2 d ∧ d.words[0]? = some 9#8 ∧
      d.words[1]? = some 5#8 ∧ d.words[2]? = some 9#8 := by
  intro c
  have reached : Reachable {} c := .operated .raiseFlag (.ofWords [127#8, 5#8, 127#8] rfl)
  have nine : Numeral.integerOfText "9".toList = some 9 := by decide +kernel
  have word : Word.ofText .byte "9" = some 9#8 := by
    rw [Word.ofText_eq rfl, nine]
    rfl
  obtain ⟨n, d, done, switched, from_blank, -⟩ := Reachable.switches_text reached rfl " " "9"
  have becomes (i : Nat) (inside : i < 3) (missing : c.words[i]? = some 127#8) :
      d.words[i]? = some 9#8 := by
    obtain ⟨e, set, same⟩ := from_blank.found i _ missing (.inl (.inr ⟨rfl, by decide⟩))
    obtain ⟨_, set', there⟩ := exists_run_setText reached.wellFormed inside "9"
    rw [set] at set'
    cases set'
    exact same.trans (there.trans (congrArg (some <| stored ·) word))
  have first := becomes 0 (by decide) rfl
  have second : d.words[1]? = some 5#8 := by
    have shows : c.integerOf (5#8 : Word .byte) = some 5 := rfl
    have blank : Numeral.integerOfText " ".toList = none := by decide +kernel
    refine from_blank.kept 1 _ rfl ?_ ?_
    · rintro (⟨n, -, denoted⟩ | ⟨⟨⟩, -⟩)
      cases blank.symm.trans denoted
    · rintro (⟨⟨⟩, -, -⟩ | ⟨reads, -⟩)
      cases shows.symm.trans reads
  have third := becomes 2 (by decide) rfl
  have two : n = 2 := by
    have changed {i : Nat} {v w : Word .byte} (here : c.words[i]? = some v)
        (now : d.words[i]? = some w) : decide (d.words[i]? ≠ c.words[i]?) = decide (w ≠ v) := by
      simp [here, now]
    calc n = [0, 1, 2].countP fun i => decide (d.words[i]? ≠ c.words[i]?) := switched.count
      _ = 2 := by
        simp only [List.countP_cons, List.countP_nil, changed rfl first, changed rfl second,
          changed rfl third]
        decide
  exact ⟨d, two ▸ done, first, second, third⟩

/-- No byte reads as two hundred, and nothing is missing, but the greatest byte is replaced. -/
theorem byte_switched_from_beyond :
    let c : Column .byte := ofSlots #[127#8, 5#8] 2
    Reachable {} c ∧ Numeral.integerOfText "200".toList = some 200 ∧
      c.integerAt 0 = .ok (some 127) ∧ c.missingAt 0 = .ok false ∧
      ∃ d, (switchText "200" "1").run c = .ok 1 d ∧ d.words = [1#8, 5#8] := by
  intro c
  have beyond : Numeral.integerOfText "200".toList = some 200 := by decide +kernel
  have one : Numeral.integerOfText "1".toList = some 1 := by decide +kernel
  have old : Word.ofText .byte "200" = none := by
    rw [Word.ofText_eq rfl, beyond]
    rfl
  have new : Word.ofText .byte "1" = some 1#8 := by
    rw [Word.ofText_eq rfl, one]
    rfl
  have length : ([127#8, 5#8] : List (Word .byte)).length ≤ 2 := by decide
  have switched : (switchText "200" "1").run c = _ := run_switchText length "200" "1"
  rw [old, new] at switched
  exact ⟨.ofWords [127#8, 5#8] rfl, beyond, rfl, rfl, _, switched, rfl⟩

end Column

end Columnar

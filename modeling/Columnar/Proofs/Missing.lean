import Mathlib.Logic.Relation
import Columnar.Proofs.Histories

/-!
# Missing elements in copies

A missing element is stored as a sentinel under a raised flag, and every way to copy it stores a
sentinel under a raised flag again. Across kinds the conversion has no word for it, which raises the
flag of the target, or the target is text, where the sentinel has no other use. Within a kind the
words are copied as they are and the flag is passed on.
-/

namespace Columnar

namespace Word

variable {k : Kind}

@[simp] theorem isSentinel_sentinel : (sentinel k).isSentinel = true := by
  cases k with
  | floating p => cases p <;> rfl
  | signed w => exact beq_self_eq_true _
  | unsigned w => exact beq_self_eq_true _
  | char => rfl
  | string => rfl

/-- The empty text has a word only among texts, where it is the sentinel. -/
theorem ofText_empty (target : Kind) :
    ofText target "" = none ∨
      ofText target "" = some (sentinel target) ∧ target.missingFixed = true := by
  cases target with
  | signed w => exact .inl rfl
  | unsigned w => exact .inl rfl
  | floating p =>
    left
    cases p <;> rfl
  | char => exact .inl rfl
  | string => exact .inr ⟨rfl, rfl⟩

end Word

theorem AnyColumn.as?_eq_some_iff {k : Kind} {a : AnyColumn} {c : Column k} :
    a.as? k = some c ↔ a = ⟨c⟩ := by
  unfold as?
  constructor
  · intro same
    split at same
    case isTrue equal =>
      subst equal
      cases same
      rfl
    case isFalse => cases same
  · intro equal
    cases equal
    rw [dif_pos rfl]

namespace Column

variable {k : Kind} {env : Environment} {c d : Column k} {i : Nat} {w : Word k}

/-! ## Reading a missing element -/

/-- What the getters make of a missing element. -/
structure ReadsMissingAt (c : Column k) (i : Nat) : Prop where
  missing : c.missingAt i = .ok true
  integer : c.integerAt i = .ok none
  double : c.doubleAt i = .ok Binary.nan
  text : c.textAt i = .ok ""

theorem missingAt_eq_ok_iff {missing : Bool} (formed : c.WellFormed) :
    c.missingAt i = .ok missing ↔ ∃ w, c.words[i]? = some w ∧ c.readsMissing w = missing := by
  refine bind_eq_ok.trans (exists_congr fun w => and_congr (wordAt_eq_ok_iff formed) ?_)
  exact ⟨Except.ok.inj, congrArg Except.ok⟩

theorem missingAt_eq_true_iff (formed : c.WellFormed) :
    c.missingAt i = .ok true ↔
      c.flag = true ∧ ∃ w, c.words[i]? = some w ∧ w.isSentinel = true := by
  simp only [missingAt_eq_ok_iff formed, readsMissing, Bool.and_eq_true]
  grind

/-- An element that is said to be missing is missing to every getter. -/
theorem readsMissingAt_iff : c.ReadsMissingAt i ↔ c.missingAt i = .ok true := by
  refine ⟨ReadsMissingAt.missing, fun missing => ?_⟩
  obtain ⟨w, here, reads⟩ := bind_eq_ok.mp missing
  have reads : c.readsMissing w = true := Except.ok.inj reads
  refine ⟨missing, ?_, ?_, ?_⟩
  · exact bind_eq_ok.mpr ⟨w, here, congrArg Except.ok (if_pos reads)⟩
  · exact bind_eq_ok.mpr ⟨w, here, congrArg Except.ok (if_pos reads)⟩
  · exact bind_eq_ok.mpr ⟨w, here, congrArg Except.ok (if_pos reads)⟩

/-! ## Converting a missing element -/

/-- A missing element has no word of another kind, unless the kind is text. -/
theorem convertWord_eq_of_missing (target : Kind) (missing : c.readsMissing w = true) :
    c.convertWord target w = none ∨
      c.convertWord target w = some (Word.sentinel target) ∧ target.missingFixed = true := by
  rw [convertWord, if_pos missing, Word.crossMissing]
  split
  · exact Word.ofText_empty target
  · exact .inl rfl

/-- Whatever a missing element is converted to is stored as a sentinel. The flag of the target goes
up for it, unless it cannot be down. -/
theorem convertWord_of_missing (target : Kind) (missing : c.readsMissing w = true) :
    (stored (c.convertWord target w)).isSentinel = true ∧
      ((c.convertWord target w).isNone = true ∨ target.missingFixed = true) := by
  obtain none | ⟨some, fixed⟩ := convertWord_eq_of_missing target missing
  · rw [none]
    exact ⟨Word.isSentinel_sentinel, .inl rfl⟩
  · rw [some]
    exact ⟨Word.isSentinel_sentinel, .inr fixed⟩

/-! ## Copying a missing element -/

section

variable {source : AnyColumn} {i j : Nat} {u : Unit}

/-- The place of a converted missing element reads as missing, provided that the flag went up where
the conversion had no word. -/
theorem missingAt_of_stored (formed : d.WellFormed) {w : Word source.kind}
    (missing : source.column.readsMissing w = true)
    (here : d.words[j]? = some (stored (source.column.convertWord k w)))
    (raised : (source.column.convertWord k w).isNone = true → d.flag = true) :
    d.missingAt j = .ok true := by
  obtain ⟨sentinel, none | fixed⟩ := convertWord_of_missing k missing
  · exact (missingAt_eq_true_iff formed).mpr ⟨raised none, _, here, sentinel⟩
  · exact (missingAt_eq_true_iff formed).mpr ⟨formed.raised fixed, _, here, sentinel⟩

variable (before : source.column.WellFormed) (missing : source.column.missingAt i = .ok true)
  (formed : c.WellFormed) (after : d.WellFormed)
include before missing formed after

theorem missingAt_of_run_addFrom {start count : Nat} (first : start ≤ i) (last : i < start + count)
    (done : (addFrom env source start count).run c = .ok u d) :
    d.missingAt (c.size + (i - start)) = .ok true := by
  obtain ⟨up, w, here, sentinel⟩ := (missingAt_eq_true_iff before).mp missing
  obtain ⟨words, flag⟩ := of_run_addFrom_eq_ok formed done
  have copied : ((source.column.words.drop start).take count)[i - start]? = some w := by
    rw [List.getElem?_take_of_lt (by omega), List.getElem?_drop, Nat.add_sub_cancel' first, here]
  refine missingAt_of_stored after (w := w) (by simp [readsMissing, up, sentinel]) ?_ fun none => ?_
  · rw [words, ← formed.length_words, List.getElem?_append_right (by omega),
      Nat.add_sub_cancel_left, List.getElem?_map, copied]
    rfl
  · rw [flag, Bool.or_eq_true, List.any_eq_true]
    exact .inr ⟨w, List.mem_of_getElem? copied, none⟩

theorem missingAt_of_run_append (done : (append env source).run c = .ok u d) :
    d.missingAt (c.size + i) = .ok true := by
  obtain ⟨up, w, here, sentinel⟩ := (missingAt_eq_true_iff before).mp missing
  obtain ⟨within, -⟩ := List.getElem?_eq_some_iff.mp here
  have size := before.length_words
  obtain ⟨words, cap, flag, length, fits, raised, rfl⟩ := wellFormed_iff.mp formed
  rw [run_append length fits] at done
  split at done
  case h_1 same copied =>
    obtain rfl := AnyColumn.as?_eq_some_iff.mp copied
    obtain ⟨held, raises⟩ := of_enlarge_eq_ok done
    refine (missingAt_eq_true_iff after).mpr ⟨by rw [raises, up, Bool.or_true], w, ?_, sentinel⟩
    rw [held, size_holding, List.getElem?_append_right (by omega), Nat.add_sub_cancel_left, here]
  case h_2 =>
    exact missingAt_of_run_addFrom before missing formed after (Nat.zero_le i) (by omega) done

theorem missingAt_of_run_setFrom (done : (setFrom j source i).run c = .ok u d) :
    d.missingAt j = .ok true := by
  obtain ⟨up, w, here, sentinel⟩ := (missingAt_eq_true_iff before).mp missing
  obtain ⟨words, cap, flag, length, fits, raised, rfl⟩ := wellFormed_iff.mp formed
  rw [run_setFrom, (wordAt_eq_ok_iff before).mpr here] at done
  split at done
  case isFalse => cases done
  case isTrue inside =>
    simp only [run_setConverted, if_pos inside] at done
    cases done
    have reads : source.column.readsMissing w = true := by simp [readsMissing, up, sentinel]
    refine missingAt_of_stored after reads ?_ fun none => ?_
    · rw [words_holding, List.getElem?_set_self inside]
    · rw [flag_holding, none, Bool.or_true]

end

theorem missingAt_of_ofAny {source : AnyColumn} {i : Nat} (before : source.column.WellFormed)
    (missing : source.column.missingAt i = .ok true) (made : ofAny env k source = .ok d) :
    d.missingAt i = .ok true := by
  obtain ⟨start, fresh, built⟩ := bind_eq_ok.mp made
  obtain ⟨slots, -, ⟨⟩⟩ := bind_eq_ok.mp fresh
  have copied : d.missingAt ((ofSlots slots 0).size + i) = .ok true :=
    missingAt_of_run_append before missing (wellFormed_withCapacity fresh) (wellFormed_ofAny made)
      (build_eq_ok_iff.mp built)
  rwa [ofSlots, Nat.zero_add] at copied

/-- The edit that an operation stands for leaves a reachable column. -/
theorem Reachable.of_run_eq_ok {e : Edit k Unit} (op : Operation k) (before : Reachable env c)
    (stands : op.run env = Operation.done e) (done : e.run c = .ok () d) : Reachable env d := by
  simpa [Operation.after, stands, Operation.done, done] using before.operated op

/-- One copy of an element: where it stood before and where it stands after. -/
inductive Copied (env : Environment) : AnyColumn × Nat → AnyColumn × Nat → Prop
  | append {source : AnyColumn} {k : Kind} {c d : Column k} (i : Nat) (before : Reachable env c)
    (done : (Column.append env source).run c = .ok () d) :
    Copied env (source, i) (⟨d⟩, c.size + i)
  | addFrom {source : AnyColumn} {k : Kind} {c d : Column k} {start count i : Nat}
    (before : Reachable env c) (first : start ≤ i) (last : i < start + count)
    (done : (Column.addFrom env source start count).run c = .ok () d) :
    Copied env (source, i) (⟨d⟩, c.size + (i - start))
  | setFrom {source : AnyColumn} {k : Kind} {c d : Column k} {i j : Nat}
    (before : Reachable env c) (done : (Column.setFrom j source i).run c = .ok () d) :
    Copied env (source, i) (⟨d⟩, j)
  | convertTo {source target : AnyColumn} (k : Kind) (i : Nat)
    (made : source.convertTo env k = .ok target) : Copied env (source, i) (target, i)
  | ofAny {source : AnyColumn} {k : Kind} {d : Column k} (i : Nat)
    (made : Column.ofAny env k source = .ok d) : Copied env (source, i) (⟨d⟩, i)

/-- A copy of a missing element is missing. -/
theorem Copied.preserves {p q : AnyColumn × Nat} (copied : Copied env p q)
    (before : Reachable env p.1.column) (missing : p.1.column.missingAt p.2 = .ok true) :
    Reachable env q.1.column ∧ q.1.column.missingAt q.2 = .ok true := by
  have formed := before.wellFormed
  cases copied with
  | @append source k c d i target done =>
    have after : Reachable env d := target.of_run_eq_ok (.append source) rfl done
    exact ⟨after, missingAt_of_run_append formed missing target.wellFormed after.wellFormed done⟩
  | @addFrom source k c d start count i target first last done =>
    have after : Reachable env d := target.of_run_eq_ok (.addFrom source start count) rfl done
    exact ⟨after, missingAt_of_run_addFrom formed missing target.wellFormed after.wellFormed first
      last done⟩
  | @setFrom source k c d i j target done =>
    have after : Reachable env d := target.of_run_eq_ok (.setFrom j source i) rfl done
    exact ⟨after, missingAt_of_run_setFrom formed missing target.wellFormed after.wellFormed done⟩
  | @convertTo source target k i made =>
    refine ⟨before.convertTo k made, ?_⟩
    unfold AnyColumn.convertTo at made
    split at made
    case isTrue =>
      cases made
      exact missing
    case isFalse =>
      obtain ⟨converted, copied, ⟨⟩⟩ := bind_eq_ok.mp made
      exact missingAt_of_ofAny formed missing copied
  | @ofAny source k d i made => exact ⟨.ofAny source made, missingAt_of_ofAny formed missing made⟩

/-- However often and through whatever kinds a missing element is copied, it never becomes a value:
it is missing at the end, it is no integer, and it is the double NaN and the empty text. Converted
once more, whatever the kind asked for, it is missing in a column of that kind. -/
theorem Reachable.stays_missing {a b : AnyColumn} {i j : Nat} (h : Reachable env a.column)
    (missing : a.column.missingAt i = .ok true)
    (chain : Relation.ReflTransGen (Copied env) (a, i) (b, j)) :
    b.column.ReadsMissingAt j ∧
      ∀ k y, b.convertTo env k = .ok y → y.kind = k ∧ y.column.ReadsMissingAt j := by
  have kept (q : AnyColumn × Nat) (chain : Relation.ReflTransGen (Copied env) (a, i) q) :
      q.1.column.missingAt q.2 = .ok true := by
    have both : Reachable env q.1.column ∧ q.1.column.missingAt q.2 = .ok true := by
      induction chain with
      | refl => exact ⟨h, missing⟩
      | tail _ copied ih => exact copied.preserves ih.1 ih.2
    exact both.2
  refine ⟨readsMissingAt_iff.mpr (kept (b, j) chain), fun k y made => ⟨kind_of_convertTo made, ?_⟩⟩
  exact readsMissingAt_iff.mpr (kept (y, j) (chain.tail (.convertTo k j made)))

/-- A missing byte, after a text column took it in and was converted to doubles. -/
theorem missing_after_text_and_double :
    let bytes : Column .byte := (ofSlots #[127#8] 1).withFlag true
    ∃ t b, (append {} ⟨bytes⟩).run (Column.empty {} .string) = .ok () t ∧
      AnyColumn.convertTo {} ⟨t⟩ .double = .ok b ∧ b.kind = .double ∧
      b.column.ReadsMissingAt 0 := by
  intro bytes
  have reached : Reachable {} bytes :=
    .operated (.withFlag true) (.ofWords [127#8] rfl)
  obtain ⟨t, b, copied, converted⟩ : ∃ t b,
      (append {} ⟨bytes⟩).run (Column.empty {} .string) = .ok () t ∧
        AnyColumn.convertTo {} ⟨t⟩ .double = .ok b := ⟨_, _, rfl, rfl⟩
  have first : Copied {} (⟨bytes⟩, 0) (⟨t⟩, 0) := .append 0 (.empty .string rfl) copied
  obtain ⟨-, converts⟩ := Reachable.stays_missing reached rfl (.single first)
  obtain ⟨kinds, last⟩ := converts .double b converted
  exact ⟨t, b, copied, converted, kinds, last⟩

end Column

end Columnar

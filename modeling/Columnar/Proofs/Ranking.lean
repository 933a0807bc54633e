import Columnar.Column.Equality
import Columnar.Proofs.StableSorting

/-!
# Rankings

A ranking names for every element a place in a strictly ascending column, at which a word stands
that compares equal to the element. Everything else follows from that and from the fact that the
column has no other words: the ranks are all the places, and they are ordered like the elements.
Both ways to rank have these two properties, so they agree where both apply.
-/

namespace Columnar

open Std

variable {k : Kind}

/-- What makes a ranking one of the elements of a column. -/
structure Ranking.Ranks (r : Ranking k) (c : Column k) : Prop where
  length : r.ranks.length = c.size
  ascending : r.distinct.words.Pairwise fun x y => x.compare y = .lt
  flag : r.distinct.flag = c.flag
  /-- The ranks are the places in the column of distinct values. -/
  mem_iff : ∀ n, n ∈ r.ranks ↔ n < r.distinct.size
  /-- An element compares equal to the distinct value of its rank. -/
  equal : ∀ (i n : Nat) (w : Word k), r.ranks[i]? = some n → c.words[i]? = some w →
    ∃ v : Word k, r.distinct.words[n]? = some v ∧ v.compare w = .eq
  /-- Ranks are ordered as the elements are. -/
  order : ∀ (i j m n : Nat) (v w : Word k), r.ranks[i]? = some m → r.ranks[j]? = some n →
    c.words[i]? = some v → c.words[j]? = some w → Ord.compare m n = v.compare w

section Places

variable {α : Type} {cmp : α → α → Ordering} [TransCmp cmp]

/-- The elements of a strictly ascending list are ordered as their places. -/
theorem compare_eq_compare_places {l : List α} (strict : l.Pairwise fun x y => cmp x y = .lt)
    {m n : Nat} {x y : α} (hx : l[m]? = some x) (hy : l[n]? = some y) :
    cmp x y = compare m n := by
  obtain ⟨hm, rfl⟩ := List.getElem?_eq_some_iff.mp hx
  obtain ⟨hn, rfl⟩ := List.getElem?_eq_some_iff.mp hy
  rcases Nat.lt_trichotomy m n with below | rfl | above
  · rw [Nat.compare_eq_lt.mpr below]
    exact List.pairwise_iff_getElem.mp strict m n hm hn below
  · rw [Nat.compare_eq_eq.mpr rfl]
    exact ReflCmp.compare_self
  · rw [Nat.compare_eq_gt.mpr above]
    exact OrientedCmp.gt_of_lt (List.pairwise_iff_getElem.mp strict n m hn hm above)

end Places

/-- Places in a strictly ascending column of words that occur among the elements make a ranking. -/
theorem Ranking.Ranks.of_places {r : Ranking k} {c : Column k} (size : c.words.length = c.size)
    (distinct_size : r.distinct.words.length = r.distinct.size)
    (length : r.ranks.length = c.words.length)
    (ascending : r.distinct.words.Pairwise fun x y => x.compare y = .lt)
    (flag : r.distinct.flag = c.flag)
    (equal : ∀ (i n : Nat) (w : Word k), r.ranks[i]? = some n → c.words[i]? = some w →
      ∃ v : Word k, r.distinct.words[n]? = some v ∧ v.compare w = .eq)
    (occurs : ∀ v ∈ r.distinct.words, ∃ w ∈ c.words, v.compare w = .eq) : r.Ranks c where
  length := length.trans size
  ascending := ascending
  flag := flag
  equal := equal
  mem_iff n := by
    rw [← distinct_size]
    constructor
    · intro used
      obtain ⟨i, hi⟩ := List.getElem?_of_mem used
      obtain ⟨inside, -⟩ := List.getElem?_eq_some_iff.mp hi
      obtain ⟨v, hv, -⟩ := equal i n _ hi (List.getElem?_eq_getElem (by omega))
      exact (List.getElem?_eq_some_iff.mp hv).1
    · intro inside
      obtain ⟨w, hw, same⟩ := occurs _ (List.getElem_mem inside)
      obtain ⟨i, hi⟩ := List.getElem?_of_mem hw
      obtain ⟨within, -⟩ := List.getElem?_eq_some_iff.mp hi
      have ranked := List.getElem?_eq_getElem (l := r.ranks) (i := i) (by omega)
      obtain ⟨v, hv, equal⟩ := equal i _ w ranked hi
      -- Two places whose words compare equal to one element are the same.
      have places := compare_eq_compare_places ascending (List.getElem?_eq_getElem inside) hv
      rw [TransCmp.eq_trans same (OrientedCmp.eq_symm equal)] at places
      rw [Nat.compare_eq_eq.mp places.symm]
      exact List.getElem_mem _
  order i j m n v w hm hn hv hw := by
    obtain ⟨v', hv', first⟩ := equal i m v hm hv
    obtain ⟨w', hw', second⟩ := equal j n w hn hw
    rw [← compare_eq_compare_places ascending hv' hw', TransCmp.congr_left first,
      TransCmp.congr_right second]

namespace Column

variable {env : Environment} {c d : Column k}

/-! ## Words of distinct keys -/

theorem strictlyAscending_iff {l : List (Word k)} :
    strictlyAscending l = true ↔ l.Pairwise fun x y => x.compare y = .lt := by
  induction l with
  | nil => simp [strictlyAscending]
  | cons a l ih =>
    cases l with
    | nil => simp [strictlyAscending]
    | cons b l =>
      have step : strictlyAscending (a :: b :: l) =
          ((a.compare b).isLT && strictlyAscending (b :: l)) := rfl
      rw [step, Bool.and_eq_true, ih, Ordering.isLT_iff_eq_lt]
      constructor
      · rintro ⟨less, rest⟩
        refine List.pairwise_cons.mpr ⟨fun x hx => ?_, rest⟩
        rcases List.mem_cons.mp hx with rfl | later
        · exact less
        · exact TransCmp.lt_trans less ((List.pairwise_cons.mp rest).1 x later)
      · intro strict
        obtain ⟨first, rest⟩ := List.pairwise_cons.mp strict
        exact ⟨first b (by simp), rest⟩

theorem mem_of_mem_firstOfKeys {seen l : List (Word k)} {w : Word k}
    (h : w ∈ firstOfKeys seen l) : w.key ∉ seen ∧ w ∈ l := by
  induction l generalizing seen with
  | nil => cases h
  | cons a l ih =>
    unfold firstOfKeys at h
    split at h
    case isTrue =>
      obtain ⟨fresh, later⟩ := ih h
      exact ⟨fresh, List.mem_cons_of_mem a later⟩
    case isFalse fresh =>
      rcases List.mem_cons.mp h with rfl | later
      · exact ⟨fresh, List.mem_cons_self⟩
      · obtain ⟨other, later⟩ := ih later
        exact ⟨fun h => other (List.mem_cons_of_mem _ h), List.mem_cons_of_mem a later⟩

theorem pairwise_firstOfKeys (seen l : List (Word k)) :
    (firstOfKeys seen l).Pairwise fun x y => x.key ≠ y.key := by
  induction l generalizing seen with
  | nil => exact .nil
  | cons a l ih =>
    unfold firstOfKeys
    split
    case isTrue => exact ih seen
    case isFalse =>
      refine List.pairwise_cons.mpr ⟨fun w hw same => ?_, ih _⟩
      exact (mem_of_mem_firstOfKeys hw).1 (by simp [same])

theorem exists_mem_firstOfKeys {seen l : List (Word k)} {w : Word k} (h : w ∈ l) :
    w.key ∈ seen ∨ ∃ v ∈ firstOfKeys seen l, v.key = w.key := by
  induction l generalizing seen with
  | nil => cases h
  | cons a l ih =>
    unfold firstOfKeys
    rcases List.mem_cons.mp h with rfl | later
    · split
      case isTrue met => exact .inl met
      case isFalse => exact .inr ⟨w, by simp, rfl⟩
    · split
      case isTrue => exact ih later
      case isFalse =>
        have found : w.key ∈ a.key :: seen ∨ ∃ v ∈ firstOfKeys (a.key :: seen) l, v.key = w.key :=
          ih later
        rcases found with met | ⟨v, kept, same⟩
        · rcases List.mem_cons.mp met with same | before
          · exact .inr ⟨a, by simp, same.symm⟩
          · exact .inl before
        · exact .inr ⟨v, by simp [kept], same⟩

theorem firstOfKeys_eq_self {seen l : List (Word k)} (fresh : ∀ w ∈ l, w.key ∉ seen)
    (apart : l.Pairwise fun x y => x.key ≠ y.key) : firstOfKeys seen l = l := by
  induction l generalizing seen with
  | nil => rfl
  | cons a l ih =>
    obtain ⟨first, rest⟩ := List.pairwise_cons.mp apart
    rw [firstOfKeys, if_neg (fresh a (by simp)), ih (fun w hw => ?_) rest]
    rw [List.mem_cons, not_or]
    exact ⟨(first w hw).symm, fresh w (by simp [hw])⟩

/-- The distinct words, sorted. -/
def distinctWords (l : List (Word k)) : List (Word k) := Word.sortWords .sequential (firstOfKeys [] l)

theorem mem_distinctWords {l : List (Word k)} {w : Word k} :
    w ∈ distinctWords l ↔ w ∈ firstOfKeys [] l :=
  (Word.sortWords_perm .sequential _).mem_iff

theorem pairwise_distinctWords (l : List (Word k)) :
    (distinctWords l).Pairwise fun x y => x.compare y = .lt := by
  have sorted := Word.isStableSort_sortWords Sorter.lawful_sequential (firstOfKeys [] l)
  have apart : (distinctWords l).Pairwise fun x y => x.key ≠ y.key :=
    sorted.perm.symm.pairwise (pairwise_firstOfKeys [] l) fun different => different.symm
  refine (sorted.ascending.and apart).imp fun {x y} both => ?_
  have different : x.compare y ≠ .eq := fun same => both.2 (Word.compare_eq_iff.mp same)
  have le := both.1
  cases order : x.compare y <;> simp_all

/-- There is one way to put the distinct words into strictly ascending order. -/
theorem distinctWords_eq {l s : List (Word k)} (perm : s.Perm (firstOfKeys [] l))
    (strict : s.Pairwise fun x y => x.compare y = .lt) : distinctWords l = s := by
  have same := (Word.sortWords_perm .sequential _).trans perm.symm
  refine same.eq_of_pairwise (fun x y _ _ less more => ?_) (pairwise_distinctWords l) strict
  rw [OrientedCmp.gt_of_lt less] at more
  cases more

/-! ## Looking up ranks -/

theorem rankIn_rankTable {distinct : List (Word k)} {v w : Word k} (h : v ∈ distinct)
    (same : v.key = w.key) :
    ∃ u, distinct[rankIn (rankTable distinct) w]? = some u ∧ u.key = w.key := by
  -- The first place whose word has the key, counted from where the list begins.
  have found (start : Nat) : ∃ i u, distinct[i]? = some u ∧ u.key = w.key ∧
      ((distinct.zipIdx start).map fun entry => (entry.1.key, entry.2)).lookup w.key =
        some (start + i) := by
    induction distinct generalizing start with
    | nil => cases h
    | cons a rest ih =>
      simp only [List.zipIdx_cons, List.map_cons, List.lookup_cons]
      by_cases first : w.key = a.key
      · exact ⟨0, a, rfl, first.symm, by simp [first]⟩
      · have later : v ∈ rest := by
          rcases List.mem_cons.mp h with rfl | later
          · exact absurd same.symm first
          · exact later
        obtain ⟨i, u, place, equal, entry⟩ := ih later (start + 1)
        refine ⟨i + 1, u, place, equal, ?_⟩
        rw [beq_eq_false_iff_ne.mpr first]
        simpa only [Nat.add_assoc, Nat.add_comm 1] using entry
  obtain ⟨i, u, place, equal, entry⟩ := found 0
  have rank : rankIn (rankTable distinct) w = i := by
    rw [Nat.zero_add] at entry
    exact congrArg (Option.getD · 0) entry
  exact ⟨u, rank ▸ place, equal⟩

/-- Taking over the rank of the word before makes no difference. -/
theorem ranksAfter_eq (table : List (Word k × Nat)) (previous : Option (Word k × Nat))
    (done : List Nat) (l : List (Word k))
    (looked : ∀ last rank, previous = some (last, rank) → rank = rankIn table last) :
    ranksAfter table previous done l = done.reverse ++ l.map (rankIn table) := by
  induction l generalizing previous done with
  | nil => simp [ranksAfter]
  | cons w l ih =>
    have rank : rankAfter table previous w = rankIn table w := by
      unfold rankAfter
      split
      case h_1 last rank =>
        split
        case isTrue equal =>
          have same := Word.compare_eq_iff.mp (Ordering.isEq_iff_eq_eq.mp equal)
          rw [looked last rank rfl, rankIn, same, rankIn]
        case isFalse => rfl
      case h_2 => rfl
    rw [ranksAfter, rank, ih _ _ (by simp)]
    simp

/-! ## The two ways to rank -/

/-- Columns of one size with the same words and flag do not differ, whatever their capacities. -/
theorem difference_eq_none (sizes : c.size = d.size) (words : c.words = d.words)
    (flags : c.flag = d.flag) : c.difference d = none := by
  have each (i : Nat) (l : List (Word k)) : c.differenceFrom d i l l = none := by
    induction l generalizing i with
    | nil => rfl
    | cons w l ih =>
      have same : w.compare w = .eq := ReflCmp.compare_self
      simp [differenceFrom, elementDifference, readsMissing, same, flags, ih]
  rw [difference, if_neg (by simpa using sizes), words, each]

/-- The column of the sorted distinct words. -/
theorem rankingByKey_eq : c.rankingByKey =
    ⟨ranksAfter (rankTable (distinctWords c.words)) none [] c.words,
      (ofSlots (distinctWords c.words).toArray (distinctWords c.words).length).withFlag c.flag,
      false⟩ := rfl

@[simp] theorem words_distinct_rankingByKey :
    c.rankingByKey.distinct.words = distinctWords c.words := by
  simp [rankingByKey_eq, Column.words, withFlag, ofSlots]

@[simp] theorem size_distinct_rankingByKey :
    c.rankingByKey.distinct.size = (distinctWords c.words).length := rfl

theorem flag_distinct_rankingByKey (raised : k.missingFixed = true → c.flag = true) :
    c.rankingByKey.distinct.flag = c.flag := by
  have flag : c.rankingByKey.distinct.flag = (k.missingFixed || c.flag) := rfl
  rw [flag]
  cases fixed : k.missingFixed <;> simp_all

theorem ranks_rankingByKey : c.rankingByKey.ranks =
    c.words.map (rankIn (rankTable (distinctWords c.words))) := by
  rw [rankingByKey_eq, ranksAfter_eq _ _ _ _ (by simp)]
  rfl

theorem rankingByKey_ranks (formed : c.WellFormed) : c.rankingByKey.Ranks c := by
  refine .of_places formed.length_words (by simp) (by simp [ranks_rankingByKey]) ?_
    (flag_distinct_rankingByKey formed.raised) (fun i n w hn hw => ?_) fun v hv => ?_
  · rw [words_distinct_rankingByKey]
    exact pairwise_distinctWords c.words
  · rw [ranks_rankingByKey, List.getElem?_map, hw, Option.map_some, Option.some.injEq] at hn
    subst hn
    have kept : w.key ∈ [] ∨ ∃ v ∈ firstOfKeys [] c.words, v.key = w.key :=
      exists_mem_firstOfKeys (List.mem_of_getElem? hw)
    obtain ⟨v, hv, same⟩ := kept.resolve_left List.not_mem_nil
    obtain ⟨u, place, equal⟩ := rankIn_rankTable (mem_distinctWords.mpr hv) same
    rw [words_distinct_rankingByKey]
    exact ⟨u, place, Word.compare_eq_iff.mpr equal⟩
  · rw [words_distinct_rankingByKey, mem_distinctWords] at hv
    exact ⟨v, (mem_of_mem_firstOfKeys hv).2, ReflCmp.compare_self⟩

/-- A strictly ascending column with its places. -/
theorem own_ranks (formed : c.WellFormed)
    (strict : c.words.Pairwise fun x y => x.compare y = .lt) :
    (⟨List.range c.words.length, c, true⟩ : Ranking k).Ranks c := by
  refine .of_places formed.length_words formed.length_words List.length_range strict rfl
    (fun i n w hn hw => ?_) fun v hv => ⟨v, hv, ReflCmp.compare_self⟩
  obtain ⟨-, rfl⟩ := List.getElem?_eq_some_iff.mp hn
  rw [List.getElem_range]
  exact ⟨w, hw, ReflCmp.compare_self⟩

theorem ranking_of_strict (strict : c.words.Pairwise fun x y => x.compare y = .lt) :
    c.ranking = ⟨List.range c.words.length, c, true⟩ :=
  if_pos (strictlyAscending_iff.mpr strict)

/-- On a strictly ascending column the keys are found in the order of the places. -/
theorem rankingByKey_of_strict (formed : c.WellFormed)
    (strict : c.words.Pairwise fun x y => x.compare y = .lt) :
    c.rankingByKey.ranks = List.range c.words.length ∧ c.rankingByKey.distinct.words = c.words := by
  have apart : c.words.Pairwise fun x y => x.key ≠ y.key := by
    refine strict.imp fun {x y} less same => ?_
    rw [Word.compare_eq_iff.mpr same] at less
    cases less
  have words : distinctWords c.words = c.words := by
    refine distinctWords_eq ?_ strict
    rw [firstOfKeys_eq_self (by simp) apart]
  have ranks := rankingByKey_ranks formed
  have length : c.rankingByKey.ranks.length = c.words.length :=
    ranks.length.trans formed.length_words.symm
  refine ⟨List.ext_getElem (by simpa using length) fun i hi _ => ?_, by simpa using words⟩
  have inside : i < c.words.length := length ▸ hi
  have here : c.words[i]? = some c.words[i] := List.getElem?_eq_getElem inside
  obtain ⟨v, place, equal⟩ := ranks.equal i _ c.words[i] (List.getElem?_eq_getElem hi) here
  rw [words_distinct_rankingByKey, words] at place
  have places := compare_eq_compare_places strict place here
  rw [equal] at places
  rw [List.getElem_range]
  exact Nat.compare_eq_eq.mp places.symm

/-- Both ways to rank rank, the first is taken for strictly ascending columns and agrees there with
the second, and the column of distinct values ranks itself. -/
theorem Reachable.ranks_elements (h : Reachable env c) :
    c.ranking.Ranks c ∧ c.rankingByKey.Ranks c ∧
      (c.ranking.isOwn = true ↔ c.words.Pairwise fun x y => x.compare y = .lt) ∧
      (c.ranking.isOwn = true → c.rankingByKey.ranks = c.ranking.ranks ∧
        c.rankingByKey.distinct.words = c.ranking.distinct.words ∧
        AnyColumn.sameAs ⟨c.rankingByKey.distinct⟩ ⟨c.ranking.distinct⟩ = true) ∧
      c.ranking.distinct.ranking.ranks = List.range c.ranking.distinct.size ∧
      c.ranking.distinct.ranking.distinct = c.ranking.distinct := by
  have formed := h.wellFormed
  have byKey := rankingByKey_ranks formed
  have own : c.ranking.isOwn = true ↔ c.words.Pairwise fun x y => x.compare y = .lt := by
    rw [← strictlyAscending_iff, ranking]
    split <;> simp_all [rankingByKey]
  have ranks : c.ranking.Ranks c := by
    by_cases strict : c.words.Pairwise fun x y => x.compare y = .lt
    · rw [ranking_of_strict strict]
      exact own_ranks formed strict
    · rw [ranking, if_neg (mt strictlyAscending_iff.mp strict)]
      exact byKey
  refine ⟨ranks, byKey, own, fun fast => ?_, ?_, ?_⟩
  · have strict := own.mp fast
    obtain ⟨same, words⟩ := rankingByKey_of_strict formed strict
    rw [ranking_of_strict strict]
    refine ⟨same, words, ?_⟩
    have none : c.rankingByKey.distinct.difference c = none := by
      refine difference_eq_none ?_ words (flag_distinct_rankingByKey formed.raised)
      rw [← formed.length_words, ← words]
      simp
    simp [AnyColumn.sameAs, AnyColumn.as?, none]
  · rw [ranking_of_strict ranks.ascending, (wellFormed_distinct formed).length_words]
  · rw [ranking_of_strict ranks.ascending]

/-- Two NaNs with different payloads around the number one: the first NaN stands for both. -/
theorem ranks_of_two_nans :
    let c : Column .float := ofSlots #[0x7fc00001#32, 0x3f800000#32, 0xffc00000#32] 3
    c.ranking.Ranks c ∧ c.ranking.ranks = [1, 0, 1] ∧
      c.ranking.distinct.words = [0x3f800000#32, 0x7fc00001#32] ∧
      c.ranking.distinct.ranking.ranks = [0, 1] := by
  intro c
  have reached : Reachable {} c := .ofWords [0x7fc00001#32, 0x3f800000#32, 0xffc00000#32] rfl
  obtain ⟨ranks, -, -, -, again, -⟩ := Reachable.ranks_elements reached
  have byKey : c.ranking = c.rankingByKey := if_neg (by decide)
  have first : firstOfKeys [] c.words = [0x7fc00001#32, 0x3f800000#32] := rfl
  have words : distinctWords c.words = [0x3f800000#32, 0x7fc00001#32] :=
    distinctWords_eq (first ▸ .swap ..) (strictlyAscending_iff.mp (by decide))
  refine ⟨ranks, ?_, ?_, ?_⟩
  · rw [byKey, ranks_rankingByKey, words]
    decide
  · rw [byKey, words_distinct_rankingByKey, words]
  · rw [again, byKey, size_distinct_rankingByKey, words]
    decide

end Column

end Columnar

import Columnar.Proofs.StoredIntegers

/-!
# Words of whole numbers

A word of an integer kind is an integer in the range of the kind, and a code unit is one from 0 to
0xFFFF. Every integer in that range has exactly one word, the greatest one being the sentinel. As a
double, a word is its integer.
-/

namespace Columnar

variable {k : Kind}

/-- The greatest integer of a kind of integers or code units, for which its sentinel stands. -/
def Kind.last : Kind → Int
  | .char => 0xFFFF
  | k => k.greatest

namespace Kind.IsIntegral

variable (integral : k.IsIntegral)
include integral

theorem inRange_iff {v : Int} : k.InRange v ↔ k.least ≤ v ∧ v ≤ k.last := by
  rcases integral with integer | rfl
  · have same : k.last = k.greatest := by cases k <;> first | rfl | cases integer
    rw [same]
    exact Kind.inRange_iff integer
  · rfl

theorem exists_toInt (w : Word k) : ∃ v, w.toInt = some v ∧ k.InRange v := by
  rcases integral with integer | rfl
  · exact w.exists_toInt integer
  · have bound : BitVec.toNat w < 2 ^ 16 := BitVec.isLt w
    exact ⟨(BitVec.toNat w : Nat), rfl, by omega, by omega⟩

theorem toInt_injective {w u : Word k} (same : w.toInt = u.toInt) : w = u := by
  rcases integral with integer | rfl
  · exact Word.toInt_injective integer same
  · exact BitVec.toNat_inj.mp (Int.ofNat.inj (Option.some.inj same))

/-- Every integer in range has its word. -/
theorem exists_ofInt {v : Int} (inside : k.InRange v) :
    ∃ w, Word.ofInt k v = some w ∧ w.toInt = some v := by
  have represents := Word.represents_stored integral (some v)
  cases word : Word.ofInt k v with
  | none =>
    have lacks : k.Lacks (some v) := Word.isNone_ofInt_iff.mp (Option.isNone_iff_eq_none.mpr word)
    exact absurd inside (lacks v rfl)
  | some w =>
    rw [Option.bind_some, word] at represents
    exact ⟨w, rfl, represents.held v rfl inside⟩

theorem ofInt_toInt (w : Word k) : w.toInt.bind (Word.ofInt k) = some w := by
  obtain ⟨v, value, inside⟩ := integral.exists_toInt w
  obtain ⟨u, word, same⟩ := integral.exists_ofInt inside
  rw [value, Option.bind_some, word, integral.toInt_injective (same.trans value.symm)]

theorem toInt_sentinel : (Word.sentinel k).toInt = some k.last := by
  rcases integral with integer | rfl
  · have same : k.last = k.greatest := by cases k <;> first | rfl | cases integer
    rw [same]
    exact Word.toInt_sentinel integer
  · rfl

theorem isSentinel_iff {w : Word k} : w.isSentinel = true ↔ w = Word.sentinel k := by
  rcases integral with integer | rfl
  · cases k <;> first | exact beq_iff_eq | cases integer
  · exact beq_iff_eq

theorem toDouble_eq {w : Word k} {v : Int} (value : w.toInt = some v) :
    w.toDouble = Binary.ofInt v := by
  rcases integral with integer | rfl
  · cases k, integer using Kind.integerCases with
    | signed b | unsigned b =>
      cases value
      rfl
  · cases value
    rfl

end Kind.IsIntegral

end Columnar

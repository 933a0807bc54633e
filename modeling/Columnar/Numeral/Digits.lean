import Columnar.Blocks
import Columnar.Kind

/-!
# Digits and signs

Reading of unsigned digit strings in a base up to 16, and of an optional sign in front of them.
Long strings are evaluated block by block, so that most steps are on small numbers.
-/

namespace Columnar.Numeral

/-- Value of a digit; letters of either case stand for ten and above. -/
def digitValue (c : Char) : Option Nat :=
  if '0' ≤ c ∧ c ≤ '9' then some (c.toNat - 48)
  else if 'a' ≤ c ∧ c ≤ 'f' then some (c.toNat - 87)
  else if 'A' ≤ c ∧ c ≤ 'F' then some (c.toNat - 55)
  else none

def isDigitOf (base : Nat) (c : Char) : Bool :=
  match digitValue c with
  | some d => d < base
  | none => false

/-- The number whose digits are those of `n` followed by the given ones, which need not be
checked. -/
def appendDigits (base n : Nat) (cs : List Char) : Nat :=
  cs.foldl (fun n c => n * base + (digitValue c).getD 0) n

theorem appendDigits_eq (base n : Nat) (cs : List Char) :
    appendDigits base n cs = n * base ^ cs.length + appendDigits base 0 cs := by
  induction cs generalizing n with
  | nil => simp [appendDigits]
  | cons c rest ih =>
    have step (m : Nat) : appendDigits base m (c :: rest) =
        appendDigits base (m * base + (digitValue c).getD 0) rest := rfl
    rw [step, step, ih, ih (0 * base + _), List.length_cons, Nat.pow_succ]
    simp only [Nat.add_mul, Nat.zero_mul, Nat.zero_add, Nat.mul_assoc, Nat.add_assoc]
    rw [Nat.mul_comm base]

/-- Value of a string of digits. -/
def digitsValue (base : Nat) (cs : List Char) : Nat :=
  (blocks 63 cs).foldl (fun n block => n * base ^ block.length + appendDigits base 0 block) 0

theorem digitsValue_eq (base : Nat) (cs : List Char) :
    digitsValue base cs = appendDigits base 0 cs := by
  have perBlock (n : Nat) (bs : List (List Char)) :
      bs.foldl (fun n block => n * base ^ block.length + appendDigits base 0 block) n =
        appendDigits base n bs.flatten := by
    induction bs generalizing n with
    | nil => rfl
    | cons b bs ih =>
      rw [List.foldl_cons, ih, ← appendDigits_eq, List.flatten_cons]
      simp [appendDigits]
  rw [digitsValue, perBlock, flatten_blocks]

/-- Reads one or more digits and nothing else. -/
def readNat (base : Nat) (cs : List Char) : Option Nat :=
  if !cs.isEmpty && cs.all (isDigitOf base) then some (digitsValue base cs) else none

/-- Splits off one sign; `true` means minus. -/
def splitSign : List Char → Bool × List Char
  | '-' :: rest => (true, rest)
  | '+' :: rest => (false, rest)
  | cs => (false, cs)

/-- Reads an optional sign and one or more digits. -/
def readInt (base : Nat) (cs : List Char) : Option Int :=
  let (negative, digits) := splitSign cs
  (readNat base digits).map fun n => if negative then -(n : Int) else n

end Columnar.Numeral

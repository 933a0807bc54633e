/-!
# Blocks of lists

A list cut into blocks of one size, for work that is done block by block and put together
afterwards.
-/

namespace Columnar

variable {α : Type}

/-- Cuts a list into blocks of `size + 1` elements; the last one may be shorter. -/
def blocks (size : Nat) (l : List α) : List (List α) :=
  match l with
  | [] => []
  | a :: rest => (a :: rest.take size) :: blocks size (rest.drop size)
  termination_by l.length
  decreasing_by simp only [List.length_drop, List.length_cons]; omega

/-- The blocks hold the elements of the list in order. -/
@[simp] theorem flatten_blocks (size : Nat) (l : List α) : (blocks size l).flatten = l := by
  fun_induction blocks size l with
  | case1 => rfl
  | case2 a rest ih => simp [ih]

end Columnar

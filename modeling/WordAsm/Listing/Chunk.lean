/-! Lists cut into chunks of equal length, the last of which may be shorter. -/

namespace WordAsm

variable {α : Type}

/-- Chunks of `size` elements; a size of zero counts as one. -/
def chunks (size : Nat) (list : List α) : List (List α) :=
  match list with
  | [] => []
  | head :: tail => (head :: tail.take (size - 1)) :: chunks size (tail.drop (size - 1))
termination_by list.length
decreasing_by
  simp only [List.length_drop, List.length_cons]
  omega

end WordAsm

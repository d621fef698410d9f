/-! Sets of code points given as inclusive ranges. The tables of this folder list the ranges
beyond the ASCII block in increasing order; the block itself is decided by core predicates. -/

namespace WordAsm.Text

/-- Inclusive ranges of code points, in increasing order. -/
abbrev Ranges := List (Nat × Nat)

def Ranges.covers (ranges : Ranges) (n : Nat) : Bool :=
  ranges.any fun range => range.1 ≤ n && n ≤ range.2

end WordAsm.Text

/-
  Primer/Text/Ranges.lean
  =======================
  **Membership in a table of ranges.**
-/

namespace Primer

/-- Is `n` in one of the ranges? They stand in ascending order, and both ends belong to
a range. -/
def inRanges (n : Nat) : List (Nat × Nat) → Bool
  | [] => false
  | (low, high) :: ranges => low ≤ n && (n ≤ high || inRanges n ranges)

end Primer

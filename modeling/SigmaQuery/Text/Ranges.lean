/-!
# Ranges of code points

A character class is a list of closed ranges of code points.
-/

namespace SigmaQuery.Text

/-- Some range of the list holds the number. -/
def inRanges (ranges : List (Nat × Nat)) (n : Nat) : Bool :=
  ranges.any fun r => r.1 ≤ n && n ≤ r.2

end SigmaQuery.Text

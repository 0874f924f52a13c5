/-!
# Closed ranges of code points

Properties of characters are given as ascending lists of closed ranges.  The tables that use them
start above ASCII, so that the common characters are decided without a search.
-/

namespace InfraGraph.Text

/-- Whether a code point lies in one of the ranges of an ascending list.  The search stops at the
first range that ends at or after the code point. -/
def inRanges (code : Nat) : List (Nat × Nat) → Bool
  | [] => false
  | (low, high) :: rest => if code ≤ high then decide (low ≤ code) else inRanges code rest

end InfraGraph.Text

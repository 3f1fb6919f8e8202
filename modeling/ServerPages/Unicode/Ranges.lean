/-!
# Sets of characters given by ranges

The character classes beyond ASCII are tables of closed ranges of code points, in ascending order.
-/

namespace ServerPages.Unicode

/-- Whether a code point lies in one of the closed ranges. -/
def inRanges (table : List (Nat × Nat)) (c : Nat) : Bool :=
  table.any fun r => r.1 ≤ c && c ≤ r.2

end ServerPages.Unicode

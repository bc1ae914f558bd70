/-
Sets of characters given by ranges.

A property of characters is a list of ranges of code points, both ends included.
-/

set_option autoImplicit false

namespace Bracemark.Text

/-- Whether a number lies in one of some ranges. -/
def inRanges (ranges : List (Nat × Nat)) (n : Nat) : Bool :=
  ranges.any fun r => r.1 ≤ n && n ≤ r.2

end Bracemark.Text

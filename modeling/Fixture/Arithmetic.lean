/-!
# Whole-number division

The language divides whole numbers to the floor, while machine words divide
toward zero. `floorDiv` corrects the quotient by one where the two differ.
-/

namespace Fixture

/-- The quotient of two words, rounded down: `-7` by `2` is `-4`. -/
def floorDiv (l r : Int64) : Int64 :=
  let q := l / r
  if l % r ≠ 0 && decide (l < 0) != decide (r < 0) then q - 1 else q

end Fixture

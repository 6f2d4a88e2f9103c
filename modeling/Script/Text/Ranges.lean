/-! Sets of code points as lists of ranges. -/

namespace Script.Text

/-- Whether one of the closed ranges holds the code point. -/
def covers (ranges : List (Nat × Nat)) (n : Nat) : Bool :=
  ranges.any fun r => r.1 ≤ n && n ≤ r.2

end Script.Text

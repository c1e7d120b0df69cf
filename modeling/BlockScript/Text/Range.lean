/-! Classes of characters given by inclusive ranges of code points. -/

namespace BlockScript.Text

def inRanges (ranges : List (Nat × Nat)) (c : Char) : Bool :=
  ranges.any fun r => r.1 ≤ c.toNat && c.toNat ≤ r.2

end BlockScript.Text

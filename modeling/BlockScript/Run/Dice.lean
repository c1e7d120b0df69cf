/-! Dice, which are rolled once for each executed block. -/

namespace BlockScript

/-- `draw n low high` is what the roll number `n` shows between `low` and `high`. -/
structure Dice where
  draw : Nat → Int → Int → Int
  rolls : Nat := 0
  inRange : ∀ n low high, low ≤ high → low ≤ draw n low high ∧ draw n low high ≤ high

namespace Dice

/-- The upper bits of a word of 64 bits, which the multiplier spreads from roll to roll. -/
def word (n : Nat) : Nat :=
  (n + 1) * 0x9e3779b97f4a7c15 % 0x10000000000000000 / 0x800

def initial : Dice where
  draw n low high := low + word n % (high - low + 1)
  inRange n low high h := by
    have hpos : 0 < high - low + 1 := by omega
    have hlow := Int.emod_nonneg (word n) (Int.ne_of_gt hpos)
    have hhigh := Int.emod_lt_of_pos (word n) hpos
    omega

def next (d : Dice) : Dice :=
  { d with rolls := d.rolls + 1 }

def pick (d : Dice) (low high : Int) : Int :=
  d.draw d.rolls low high

end Dice

end BlockScript

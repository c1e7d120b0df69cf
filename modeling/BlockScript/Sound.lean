/-! The built-in sounds and their lengths. -/

namespace BlockScript

def soundNames : List String := ["Laser", "Warp", "Beep", "Boop"]

/-- The length of a built-in sound in milliseconds. -/
def soundLength? (name : String) : Option Nat :=
  if name = "Laser" ∨ name = "Beep" ∨ name = "Boop" then some 200
  else if name = "Warp" then some 400
  else none

end BlockScript

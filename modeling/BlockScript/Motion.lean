import BlockScript.Number.Function
import BlockScript.Stage.Sprite

/-! How sprites move. Direction 0 points up and 90 to the right, and `y` grows downwards. -/

namespace BlockScript

/-- The unit step in a direction, rounded to ten decimals. -/
def heading (rotation : Float) : Point :=
  let radians := Number.toRadians rotation
  ⟨Number.toTenPlaces radians.sin, Number.toTenPlaces (-radians.cos)⟩

def directionOf (d : Point) : Float :=
  Number.toDegrees (Float.atan2 d.x (-d.y))

namespace Sprite

def moveSteps (s : Sprite) (steps : Float) : Sprite :=
  let d := heading s.rotation
  { s with position := ⟨s.position.x + steps * d.x, s.position.y + steps * d.y⟩ }

/-- Turns towards a point, unless the sprite stands on it. -/
def pointTowards (s : Sprite) (p : Point) : Sprite :=
  let d := p.sub s.position
  if d.x != 0 || d.y != 0 then { s with rotation := directionOf d } else s

/-- Turns back a sprite that heads over an edge, and brings it inside. -/
def bounce (s : Sprite) : Sprite :=
  let right := stageWidth / 2 - s.radius
  let bottom := stageHeight / 2 - s.radius
  let d := heading s.rotation
  let p := s.position
  let r := if (p.x > right && d.x > 0) || (p.x < -right && d.x < 0) then -s.rotation else s.rotation
  let r := if (p.y > bottom && d.y > 0) || (p.y < -bottom && d.y < 0) then 180 - r else r
  let x := Number.atLeast right 0
  let y := Number.atLeast bottom 0
  { s with rotation := r, position := ⟨Number.clamp p.x (-x) x, Number.clamp p.y (-y) y⟩ }

end Sprite

end BlockScript

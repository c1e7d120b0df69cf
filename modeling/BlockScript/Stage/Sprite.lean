import BlockScript.Block
import BlockScript.Number.Remainder

/-! Sprites: where they stand, how they look and what they say. -/

namespace BlockScript

def stageWidth : Float := 480
def stageHeight : Float := 360

/-- Half the width of a sprite of size 100. -/
def spriteRadius : Float := 20

def costumes : List String := ["🐱", "🐶", "🦊", "🐻", "🐼", "🐸", "🦁", "🐯"]

def defaultCostume : String := "🐱"

inductive SpeechStyle where
  | say | think
  deriving DecidableEq

structure Speech where
  style : SpeechStyle
  text : String
  deriving DecidableEq

/-- Empty text takes the speech bubble away. -/
def Speech.of (style : SpeechStyle) (text : String) : Option Speech :=
  if text = "" then none else some ⟨style, text⟩

structure Pen where
  down : Bool
  color : String
  size : Float
  deriving DecidableEq

/-- A direction of 90 points right, and angles grow clockwise. -/
structure Sprite where
  id : String
  name : String
  position : Point
  rotation : Float
  visible : Bool
  costume : String
  size : Float
  volume : Float
  speech : Option Speech
  pen : Pen
  deriving DecidableEq

/-- The angle in `[0, 360)` that points the same way. -/
def normalizeRotation (degrees : Float) : Float :=
  if degrees.isFinite then
    let r := Number.wrap degrees 360
    if r ≥ 360 then 0 else r
  else 0

namespace Sprite

def create (id name costume : String) : Sprite where
  id := id
  name := name
  position := .origin
  rotation := 90
  visible := true
  costume := costume
  size := 100
  volume := 100
  speech := none
  pen := ⟨false, "#ffc700", 3⟩

/-- The place of the costume among the built-in ones, counted from one. Other costumes count
as the first. -/
def costumeNumber (s : Sprite) : Nat :=
  match costumes.idxOf? s.costume with
  | some i => i + 1
  | none => 1

/-- The built-in costume after this one. Other costumes are followed by the first. -/
def nextCostume (s : Sprite) : String :=
  match costumes.idxOf? s.costume with
  | some i => costumes.getD ((i + 1) % costumes.length) defaultCostume
  | none => defaultCostume

def finiteOrZero (x : Float) : Float :=
  if x.isFinite then x else 0

/-- Brings every number of the sprite into its range. -/
def normalize (s : Sprite) : Sprite :=
  { s with
    position := ⟨finiteOrZero s.position.x, finiteOrZero s.position.y⟩
    rotation := normalizeRotation s.rotation
    size := Number.atLeast s.size 0
    volume := Number.clamp s.volume 0 100
    pen := { s.pen with size := Number.atLeast s.pen.size 1 } }

/-- The sprite as it was created, in the costume it wears. -/
def reset (s : Sprite) : Sprite :=
  create s.id s.name s.costume

def radius (s : Sprite) : Float :=
  spriteRadius * s.size / 100

def hush (s : Sprite) : Sprite :=
  { s with speech := none }

end Sprite

end BlockScript

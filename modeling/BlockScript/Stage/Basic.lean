import BlockScript.Stage.Input
import BlockScript.Stage.Sprite

/-! The stage: all that running scripts read and write. -/

namespace BlockScript

structure Segment where
  start : Point
  finish : Point
  color : String
  size : Float
  deriving DecidableEq

inductive ObjectKind where
  | floor | box
  deriving DecidableEq

structure Object where
  id : String
  kind : ObjectKind
  prompt : String
  texture : String
  deriving DecidableEq

/-- A question that a sprite waits on. -/
structure Prompt where
  id : Nat
  question : String
  sprite : String
  deriving DecidableEq

structure Stage where
  sprites : Table Sprite
  «variables» : Table Value
  monitors : Table Bool
  trail : List Segment
  objects : List Object
  prompts : List Prompt
  generating : Nat
  input : Input
  lastObject : Nat

/-- The variable that holds the last answer. -/
def answerName : String := "answer"

namespace Stage

def initial : Stage where
  sprites := []
  «variables» := [(answerName, .empty)]
  monitors := [(answerName, false)]
  trail := []
  objects := []
  prompts := []
  generating := 0
  input := .initial
  lastObject := 0

def sprite? (s : Stage) (id : String) : Option Sprite :=
  s.sprites.get? id

def addSprite (s : Stage) (sprite : Sprite) : Stage :=
  { s with sprites := s.sprites.insert sprite.id sprite }

/-- The line that a sprite draws when it goes from one state to the next. -/
def drawn (before after : Sprite) : List Segment :=
  if after.pen.down && !before.position.same after.position then
    [⟨before.position, after.position, after.pen.color, after.pen.size⟩]
  else []

/-- Changes a sprite, brings it into range and lets its pen draw. An unknown sprite changes
nothing. -/
def updateSprite (s : Stage) (id : String) (change : Sprite → Sprite) : Stage :=
  match s.sprite? id with
  | none => s
  | some before =>
    let after := (change before).normalize
    { s with
      sprites := s.sprites.insert id after
      trail := s.trail ++ drawn before after }

/-- The value of a variable. A name that was never bound is empty. -/
def valueOf (s : Stage) (name : String) : Value :=
  (s.«variables».get? name).getD .empty

def setVariable (s : Stage) (name : String) (value : Value) : Stage :=
  { s with «variables» := s.«variables».insert name value }

def changeVariable (s : Stage) (name : String) (amount : Float) : Stage :=
  s.setVariable name (.number ((s.valueOf name).toNumber + amount))

def clearSpeech (s : Stage) : Stage :=
  { s with sprites := s.sprites.mapValues Sprite.hush }

def erasePen (s : Stage) : Stage :=
  { s with trail := [] }

def objectId (n : Nat) : String :=
  "3d-" ++ .ofList (Nat.toDigits 10 n)

def addObject (s : Stage) (kind : ObjectKind) (prompt texture : String) : Stage × String :=
  let id := objectId (s.lastObject + 1)
  ({ s with
      objects := s.objects ++ [⟨id, kind, prompt, texture⟩]
      lastObject := s.lastObject + 1 }, id)

/-- Puts every sprite back to its start and clears drawings and objects. -/
def reset (s : Stage) : Stage :=
  { s with sprites := s.sprites.mapValues Sprite.reset, trail := [], objects := [] }

def toggleMonitor (s : Stage) (name : String) : Stage × Bool :=
  let shown := !(s.monitors.get? name).getD false
  ({ s with monitors := s.monitors.insert name shown }, shown)

end Stage

end BlockScript

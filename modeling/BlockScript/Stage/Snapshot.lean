import BlockScript.Stage.Basic

/-! What a renderer is shown of the stage. -/

namespace BlockScript

structure Snapshot where
  sprites : List Sprite
  «variables» : Table Value
  trail : List Segment
  objects : List Object
  prompt : Option Prompt
  generating : Bool

/-- Only monitored variables are shown, and only the oldest question. -/
def Stage.snapshot (s : Stage) : Snapshot where
  sprites := s.sprites.values
  «variables» := s.«variables».filter fun b => (s.monitors.get? b.1).getD false
  trail := s.trail
  objects := s.objects
  prompt := s.prompts.head?
  generating := s.generating > 0

end BlockScript

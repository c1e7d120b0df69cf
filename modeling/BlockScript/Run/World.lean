import BlockScript.Expression
import BlockScript.Project
import BlockScript.Run.Options
import BlockScript.Run.Record

/-! All that a chain can see and change: the project with its stage, the run flag, the pending
asks, the sounds, and the log. -/

namespace BlockScript

/-- `asks` are the asks that have no reply yet, `sender` is the run that takes triggers, `sent`
are the triggers on their way to it, and `generation` counts how often sounds were cut. -/
structure World where
  project : Project
  options : Options
  services : Services
  state : RunState
  running : Bool
  asks : List Nat
  lastAsk : Nat
  sender : Option Nat
  sent : List Trigger
  generation : Nat
  now : Nat
  dice : Dice
  log : Array (Nat × Record)

namespace World

def stage (w : World) : Stage :=
  w.project.stage

def mapStage (w : World) (f : Stage → Stage) : World :=
  { w with project := { w.project with stage := f w.project.stage } }

def note (w : World) (r : Record) : World :=
  { w with log := w.log.push (w.now, r) }

def update (w : World) (sprite : String) (change : Sprite → Sprite) : World :=
  w.mapStage (·.updateSprite sprite change)

def scene (w : World) (sprite : String) : Scene :=
  w.stage.scene sprite w.dice.pick

def read (w : World) (sprite : String) (b : Block) (name : String) : Value :=
  (w.scene sprite).resolve w.options.maxDepth (b.params.get? name)

/-- Records each reporter passed over while the parameters `names` of `b` are read. -/
def noteOverruns (w : World) (sprite : String) (b : Block) (names : List String) : World :=
  let cap := w.options.maxDepth
  let count := (names.map fun name =>
    match b.params.get? name with
    | some p => p.overrunsAt (w.scene sprite) cap 0
    | none => 0).foldl (· + ·) 0
  (List.replicate count (Record.overrun cap)).foldl note w

def stopSounds (w : World) : World :=
  let w := if w.services.tracksSounds then w.note .soundsStopped else w
  { w with generation := w.generation + 1 }

def send (w : World) (t : Trigger) : World :=
  { w with sent := w.sent ++ [t] }

end World

end BlockScript

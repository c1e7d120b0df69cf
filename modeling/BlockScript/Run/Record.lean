import BlockScript.Run.Trigger
import BlockScript.Texture

/-! Records of what happens in a run. -/

namespace BlockScript

inductive RunState where
  | idle | running | stopped
  deriving DecidableEq

namespace RunState

def name : RunState → String
  | idle => "Idle"
  | running => "Running"
  | stopped => "Stopped"

/-- The state after a stop. Only a run that goes on can be stopped. -/
def stop : RunState → RunState
  | running => stopped
  | s => s

/-- The state after a run has ended. A stopped run stays stopped. -/
def finish : RunState → RunState
  | running => idle
  | s => s

end RunState

def ObjectKind.title : ObjectKind → String
  | floor => "Floor"
  | box => "Box"

inductive Record where
  | runStarted (first : Trigger)
  | alreadyRunning (ignored : Trigger)
  | chainStarted (hat sprite : String)
  | stopRequested
  | runFinished (state : RunState)
  | began (sprite : String) (kind : BlockKind) (depth : Nat)
  | overrun (cap : Nat)
  | bodySkipped (block : String) (cap : Nat)
  | callSkipped (script : String) (cap : Nat)
  | noScript (name : String)
  | broadcast (message : String)
  | textureDiscarded (prompt : String)
  | textureFailed (prompt : String) (error : TextureError)
  | objectCreated (kind : ObjectKind) (id : String)
  | played (sound : String) (waits : Bool)
  | soundsStopped
  | textureRequested (prompt : String)

namespace Record

def level : Record → String
  | runStarted _ | chainStarted .. | stopRequested | runFinished _ | objectCreated .. => "INFO"
  | alreadyRunning _ | began .. | noScript _ | broadcast _ | textureDiscarded _ => "DEBUG"
  | overrun _ | bodySkipped .. | callSkipped .. | textureFailed .. => "WARN"
  | played _ waits => if waits then "PLAY_WAIT" else "PLAY"
  | soundsStopped => "STOP_SOUNDS"
  | textureRequested _ => "GENERATE"

def decimal (n : Nat) : String :=
  .ofList (Nat.toDigits 10 n)

def text : Record → String
  | runStarted first => "run started by " ++ first.describe
  | alreadyRunning ignored => "already running, ignoring " ++ ignored.describe
  | chainStarted hat sprite => "starting chain " ++ hat ++ " on " ++ sprite
  | stopRequested => "stop requested"
  | runFinished state => "run finished (" ++ state.name ++ ")"
  | began sprite kind _ => sprite ++ ": " ++ kind.identifier
  | overrun cap => "expression nested deeper than " ++ decimal cap ++ ", using empty value"
  | bodySkipped block cap => block ++ " nested deeper than " ++ decimal cap ++ ", skipping body"
  | callSkipped script cap =>
    "run script " ++ Text.quoted script ++ " nested deeper than " ++ decimal cap ++ ", skipping"
  | noScript name => "no script called " ++ Text.quoted name
  | broadcast message => "broadcast " ++ Text.quoted message
  | textureDiscarded prompt => "run stopped, discarding texture for " ++ Text.quoted prompt
  | textureFailed prompt error =>
    "texture generation failed for " ++ Text.quoted prompt ++ ": " ++ error.message
  | objectCreated kind id => "created " ++ kind.title ++ " " ++ id
  | played sound _ => sound
  | soundsStopped => ""
  | textureRequested prompt => prompt

end Record

end BlockScript

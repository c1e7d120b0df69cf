import BlockScript.Run.Schedule
import BlockScript.Stage.Snapshot

/-! What the host may do at any time, also during a run. -/

namespace BlockScript

/-- Changes made to a sprite by hand, all at once. -/
structure SpriteEdit where
  x : Option Float := none
  y : Option Float := none
  rotation : Option Float := none
  size : Option Float := none
  volume : Option Float := none
  penSize : Option Float := none
  visible : Option Bool := none
  penDown : Option Bool := none
  costume : Option String := none
  penColor : Option String := none
  say : Option String := none
  think : Option String := none

def SpriteEdit.apply (e : SpriteEdit) (s : Sprite) : Sprite :=
  { s with
    position := ⟨e.x.getD s.position.x, e.y.getD s.position.y⟩
    rotation := e.rotation.getD s.rotation
    visible := e.visible.getD s.visible
    costume := e.costume.getD s.costume
    size := e.size.getD s.size
    volume := e.volume.getD s.volume
    speech := ((e.think.map (Speech.mk .think)).or (e.say.map (Speech.mk .say))).or s.speech
    pen :=
      { down := e.penDown.getD s.pen.down
        color := e.penColor.getD s.pen.color
        size := e.penSize.getD s.pen.size } }

inductive Command where
  | flag
  | click (sprite : String)
  | stop
  | answer (text : String)
  | moveMouse (p : Point)
  | press (key : String)
  | release (key : String)
  | isPressed (key : String)
  | editSprite (sprite : String) (edit : SpriteEdit)
  | toggleMonitor (name : String)
  | resetStage
  | setVariable (name : String) (value : Value)
  | changeVariable (name : String) (amount : Float)
  | getVariable (name : String)
  | addObject (kind : ObjectKind) (prompt texture : String)
  | erasePen
  | variableNames
  | definedScripts
  | spriteIds
  | palette
  | look
  | snapshot

inductive Reply where
  | nothing
  | state (s : RunState)
  | bool (b : Bool)
  | value (v : Value)
  | text (s : String)
  | names (l : List String)
  | palette (shown : List Category)
  | sprite (s : Sprite)
  | view (state : RunState) (running : Bool) (stage : Stage)
  | snapshot (s : Snapshot)
  | refused (e : EditError)

namespace Machine

def stage (m : Machine) : Stage :=
  m.world.stage

def mapStage (m : Machine) (f : Stage → Stage) : Machine :=
  m.mapWorld (·.mapStage f)

def withProject (m : Machine) (p : Project) : Machine :=
  m.mapWorld fun w => { w with project := p }

def view (m : Machine) : Reply :=
  .view m.world.state m.world.running m.stage

/-- Carries out a command of the host. Calls go on until they have to wait. -/
def obey (fuel : Nat) (m : Machine) : Command → Machine × Reply
  | .flag =>
    let m := m.flag fuel
    (m, .state m.world.state)
  | .click sprite =>
    let m := m.click fuel sprite
    (m, .state m.world.state)
  | .stop =>
    let m := m.stop
    (m, .state m.world.state)
  | .answer text =>
    let (m, taken) := m.answer text
    (m, .bool taken)
  | .moveMouse p =>
    (m.mapStage fun s => { s with input := { s.input with mouse := p } }, .nothing)
  | .press key => (m.mapStage fun s => { s with input := s.input.press key }, .nothing)
  | .release key => (m.mapStage fun s => { s with input := s.input.release key }, .nothing)
  | .isPressed key => (m, .bool (m.stage.input.isPressed key))
  | .editSprite sprite edit =>
    match m.world.project.editSprite sprite edit.apply with
    | .error e => (m, .refused e)
    | .ok p =>
      (m.withProject p,
        match p.stage.sprite? sprite with
        | some s => .sprite s
        | none => .nothing)
  | .toggleMonitor name =>
    let (stage, shown) := m.stage.toggleMonitor name
    (m.mapStage fun _ => stage, .bool shown)
  | .resetStage => (m.mapStage (·.reset), .nothing)
  | .setVariable name value => (m.mapStage (·.setVariable name value), .nothing)
  | .changeVariable name amount =>
    let m := m.mapStage (·.changeVariable name amount)
    (m, .value (m.stage.valueOf name))
  | .getVariable name => (m, .value (m.stage.valueOf name))
  | .addObject kind prompt texture =>
    let (stage, id) := m.stage.addObject kind prompt texture
    (m.mapStage fun _ => stage, .text id)
  | .erasePen => (m.mapStage (·.erasePen), .nothing)
  | .variableNames => (m, .names m.world.project.variableNames)
  | .definedScripts => (m, .names m.world.project.definedScripts)
  | .spriteIds => (m, .names m.world.project.scripts.keys)
  | .palette => (m, .palette m.world.project.palette)
  | .look => (m, m.view)
  | .snapshot => (m, .snapshot m.stage.snapshot)

end Machine

end BlockScript

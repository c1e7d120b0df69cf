import BlockScript.Motion
import BlockScript.Run.Chain
import BlockScript.Run.Duration
import BlockScript.Run.World
import BlockScript.Sound

/-! What each kind of block does when it runs as a step. -/

namespace BlockScript

def failureMessage : String := "Sorry, I couldn't make that."

/-- The parameters that a step reads at its start, in order. A wait for a condition reads it
again and again, and a definition reads nothing. -/
def BlockKind.readAtStart : BlockKind → List String
  | .waitUntil => []
  | .defineScript => []
  | kind => kind.params.map (·.name)

/-- A random point of the stage with whole coordinates. -/
def randomPoint (d : Dice) : Point :=
  ⟨Float.ofInt (d.pick (-240) 240), Float.ofInt (d.next.pick (-180) 180)⟩

/-- The change that a step makes to its sprite, for the kinds that do nothing else. -/
def BlockKind.spriteChange? (kind : BlockKind) (arg : String → Value) (mouse : Point)
    (dice : Dice) : Option (Sprite → Sprite) :=
  let num := fun name => (arg name).toNumber
  let text := fun name => (arg name).toText
  match kind with
  | .moveSteps => some (·.moveSteps (num "steps"))
  | .turnRight => some fun s => { s with rotation := s.rotation + num "degrees" }
  | .turnLeft => some fun s => { s with rotation := s.rotation - num "degrees" }
  | .goToXY => some fun s => { s with position := ⟨num "x", num "y"⟩ }
  | .goTo =>
    if text "target" = "_random_" then some fun s => { s with position := randomPoint dice }
    else if text "target" = "_mouse_" then some fun s => { s with position := mouse }
    else none
  | .pointTowards => if text "target" = "_mouse_" then some (·.pointTowards mouse) else none
  | .changeX =>
    some fun s => { s with position := { s.position with x := s.position.x + num "dx" } }
  | .setX => some fun s => { s with position := { s.position with x := num "x" } }
  | .changeY =>
    some fun s => { s with position := { s.position with y := s.position.y + num "dy" } }
  | .setY => some fun s => { s with position := { s.position with y := num "y" } }
  | .bounce => some (·.bounce)
  | .say => some fun s => { s with speech := Speech.of .say (text "message") }
  | .think => some fun s => { s with speech := Speech.of .think (text "message") }
  | .switchCostume =>
    if text "costume" = "" then none else some fun s => { s with costume := text "costume" }
  | .nextCostume => some fun s => { s with costume := s.nextCostume }
  | .changeSize => some fun s => { s with size := s.size + num "size" }
  | .setSize => some fun s => { s with size := num "size" }
  | .showSprite => some fun s => { s with visible := true }
  | .hideSprite => some fun s => { s with visible := false }
  | .changeVolume => some fun s => { s with volume := s.volume + num "volume" }
  | .setVolume => some fun s => { s with volume := num "volume" }
  | .penDown => some fun s => { s with pen := { s.pen with down := true } }
  | .penUp => some fun s => { s with pen := { s.pen with down := false } }
  | .setPenColor => some fun s => { s with pen := { s.pen with color := text "color" } }
  | .setPenSize => some fun s => { s with pen := { s.pen with size := num "size" } }
  | _ => none

def Block.defines (name : String) (b : Block) : Bool :=
  b.kind == .defineScript && (b.literalText? "name").map Text.trim == some name

def Script.definition? (s : Script) (name : String) : Option (Script × Block) :=
  (s.blocks.find? (·.defines name)).map fun b => (s, b)

/-- The definition of a script: the one of the sprite itself, or else the first of all. -/
def definition? (scripts : Table Script) (sprite name : String) : Option (Script × Block) :=
  match (scripts.get? sprite).bind (·.definition? name) with
  | some found => some found
  | none => scripts.values.findSome? (·.definition? name)

namespace World

/-- Starts the body of the script called `name`. -/
def call (w : World) (scripts : Table Script) (sprite name : String) (depth : Nat) :
    World × Task :=
  let name := Text.trim name
  if name = "" then (w, .resume)
  else if w.options.maxDepth ≤ depth then
    (w.note (.callSkipped name w.options.maxDepth), .resume)
  else match definition? scripts sprite name with
    | none => (w.note (.noScript name), .resume)
    | some (script, b) =>
      match Layout.firstChild script.blocks b with
      | some first => (w, .block script.blocks first (depth + 1))
      | none => (w, .resume)

def ask (w : World) (sprite question : String) : World × Task :=
  let id := w.lastAsk + 1
  let w := { w with asks := w.asks ++ [id], lastAsk := id }
  let w := w.mapStage fun s => { s with prompts := s.prompts ++ [⟨id, question, sprite⟩] }
  (w.update sprite fun s => { s with speech := some ⟨.say, question⟩ }, .wait (.reply id none))

def requestTexture (w : World) (prompt : String) : World × Task :=
  let request := ObjectRequest.ofPrompt prompt
  let w := w.mapStage fun s => { s with generating := s.generating + 1 }
  let w := if w.services.tracksTextures then w.note (.textureRequested request.texturePrompt) else w
  (w, .pause (some (w.services.generator request).delay) (.texture request))

/-- Runs the step `b`, whose parameters have the values `arg`. The frame, if any, is entered
before the task. -/
def perform (w : World) (scripts : Table Script) (sprite : String) (blocks : List Block)
    (b : Block) (depth : Nat) (arg : String → Value) : World × Option Frame × Task :=
  let num := fun name => (arg name).toNumber
  let text := fun name => (arg name).toText
  match b.kind with
  | .sayFor =>
    (w.update sprite fun s => { s with speech := some ⟨.say, text "message"⟩ }, none,
      .pause (milliseconds (num "seconds")) .speech)
  | .thinkFor =>
    (w.update sprite fun s => { s with speech := some ⟨.think, text "message"⟩ }, none,
      .pause (milliseconds (num "seconds")) .speech)
  | .playSound =>
    (if w.services.tracksSounds then w.note (.played (text "sound") false) else w, none, .resume)
  | .playSoundUntilDone =>
    let w := if w.services.tracksSounds then w.note (.played (text "sound") true) else w
    match soundLength? (text "sound") with
    | some length => (w, none, .pause (some length) (.sound w.generation))
    | none => (w, none, .resume)
  | .stopSounds => (w.stopSounds, none, .resume)
  | .broadcast =>
    ((w.note (.broadcast (text "message"))).send (.broadcast (text "message")), none, .resume)
  | .wait => (w, none, .pause (milliseconds (num "seconds")) .delay)
  | .waitUntil => (w, none, .look b)
  | .repeatTimes =>
    (w, some (.loop blocks b depth 0 (some (Number.roundHalfUp (num "times")))), .round)
  | .forever => (w, some (.loop blocks b depth 0 none), .round)
  | .ifThen =>
    (w, none, if (arg "condition").isTruthy then .body blocks b depth else .resume)
  | .ask =>
    let (w, task) := w.ask sprite (text "question")
    (w, none, task)
  | .setVariable =>
    (if text "variable" = "" then w
      else w.mapStage (·.setVariable (text "variable") (arg "value")), none, .resume)
  | .changeVariable =>
    (if text "variable" = "" then w
      else w.mapStage (·.changeVariable (text "variable") (num "value")), none, .resume)
  | .runScript =>
    let (w, task) := w.call scripts sprite (text "name") depth
    (w, none, task)
  | .eraseAll => (w.mapStage (·.erasePen), none, .resume)
  | .createObject =>
    let (w, task) := w.requestTexture (text "object")
    (w, none, task)
  | kind =>
    match kind.spriteChange? arg w.stage.input.mouse w.dice with
    | some change => (w.update sprite change, none, .resume)
    | none => (w, none, .resume)

end World

end BlockScript

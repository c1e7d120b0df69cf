import BlockScript.Script
import BlockScript.Sound
import BlockScript.Stage.Basic

/-! A project: a stage, one script for each sprite, and the extensions switched on. -/

namespace BlockScript

structure Project where
  stage : Stage
  scripts : Table Script
  extensions : List String
  lastSprite : Nat

/-- The trimmed names of the scripts that `s` defines, in block order. -/
def Script.definedNames (s : Script) : List String :=
  s.blocks.filterMap fun b =>
    if b.kind = .defineScript then (b.literalText? "name").map Text.trim else none

namespace Project

def empty : Project := ⟨.initial, [], [], 0⟩

def decimal (n : Nat) : String :=
  .ofList (Nat.toDigits 10 n)

def insertSprite (p : Project) (costume : String) : Project × String :=
  let id := "sprite-" ++ decimal (p.lastSprite + 1)
  let name := "Sprite" ++ decimal (p.scripts.length + 1)
  ({ p with
      stage := p.stage.addSprite (.create id name costume)
      scripts := p.scripts.insert id .empty
      lastSprite := p.lastSprite + 1 }, id)

/-- Adds a sprite in the next built-in costume. -/
def addSprite (p : Project) : Project × String :=
  p.insertSprite (costumes.getD (p.scripts.length % costumes.length) defaultCostume)

def initial : Project :=
  empty.addSprite.1

def script? (p : Project) (sprite : String) : Option Script :=
  p.scripts.get? sprite

def deleteSprite (p : Project) (id : String) : Except EditError Project :=
  match p.script? id with
  | none => .error (.unknownSprite id)
  | some _ =>
    .ok { p with
      stage := { p.stage with sprites := p.stage.sprites.erase id }
      scripts := p.scripts.erase id }

/-- Changes a sprite by hand. The pen draws as it does in a run. -/
def editSprite (p : Project) (id : String) (change : Sprite → Sprite) :
    Except EditError Project :=
  match p.stage.sprite? id with
  | none => .error (.unknownSprite id)
  | some _ => .ok { p with stage := p.stage.updateSprite id change }

def editScript {α : Type} (p : Project) (sprite : String)
    (edit : Script → Except EditError (Script × α)) : Except EditError (Project × α) :=
  match p.script? sprite with
  | none => .error (.unknownSprite sprite)
  | some s =>
    match edit s with
    | .ok (s', a) => .ok ({ p with scripts := p.scripts.insert sprite s' }, a)
    | .error e => .error e

/-- The variables that were created, oldest first. -/
def variableNames (p : Project) : List String :=
  p.stage.«variables».keys.filter (· != answerName)

/-- The names of defined scripts, each once, in sprite and then block order. -/
def definedScripts (p : Project) : List String :=
  (p.scripts.values.flatMap Script.definedNames).foldl
    (fun names name => if name = "" ∨ name ∈ names then names else names ++ [name]) []

/-- The first choice of a picker in a block fresh from the palette. -/
def firstChoice? (p : Project) (kind : BlockKind) (spec : ParamSpec) : Option String :=
  match spec.kind with
  | .variableDropdown => if kind.category = .«variables» then p.variableNames.head? else none
  | .scriptDropdown => p.definedScripts.head?
  | .costumeDropdown => costumes.head?
  | .soundDropdown => soundNames.head?
  | _ => none

def placementParams (p : Project) (kind : BlockKind) : Table Param :=
  kind.params.filterMap fun spec =>
    (p.firstChoice? kind spec).map fun choice => (spec.name, .literal (.text choice))

def placeBlock (p : Project) (sprite : String) (kind : BlockKind) (drop : Point) :
    Except EditError (Project × Block) :=
  p.editScript sprite fun s => .ok (s.place kind drop (p.placementParams kind))

def createVariable (p : Project) (name : String) : Except EditError (Project × String) :=
  let name := Text.trim name
  if name = "" then .error .emptyVariableName
  else if Text.sameLetters name answerName then .error (.reservedVariableName answerName)
  else match p.stage.«variables».get? name with
    | some _ => .error (.variableExists name)
    | none =>
      let stage := p.stage.setVariable name (.number 0)
      .ok ({ p with stage := { stage with monitors := stage.monitors.insert name false } }, name)

def enableExtension (p : Project) (id : String) : Except EditError Project :=
  match Extension.find? id with
  | none => .error (.unknownExtension id)
  | some e =>
    if e.id ∈ p.extensions then .ok p
    else .ok { p with extensions := p.extensions ++ [e.id] }

def palette (p : Project) : List Category :=
  BlockScript.palette p.extensions

end Project

end BlockScript

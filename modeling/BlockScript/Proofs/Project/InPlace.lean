import BlockScript.Proofs.Stage.Touch
import BlockScript.Run.Command

/-! Edits and calls that work in place. Each one makes its changes and its checks in an order of
its own, and what was changed before a check fails stays changed. Still every one of them does
what its pure counterpart says, so that a failed one leaves nothing behind. -/

namespace BlockScript

/-- A procedure on a state of type `σ`. -/
abbrev Procedure (σ α : Type) : Type :=
  ExceptT EditError (StateM σ) α

namespace Procedure

variable {σ τ α β : Type}

/-- The result of a procedure, and the state it leaves behind, also when it fails. -/
def on (x : Procedure σ α) (s : σ) : Except EditError α × σ :=
  x.run s

def outcome (r : Except EditError α) : Procedure σ α :=
  ExceptT.mk (pure r)

@[simp] theorem on_pure (a : α) (s : σ) : (pure a : Procedure σ α).on s = (.ok a, s) := rfl

@[simp] theorem on_throw (e : EditError) (s : σ) :
    (throw e : Procedure σ α).on s = (.error e, s) := rfl

@[simp] theorem on_get (s : σ) : (get : Procedure σ σ).on s = (.ok s, s) := rfl

@[simp] theorem on_set (s s' : σ) : (set s' : Procedure σ PUnit).on s = (.ok ⟨⟩, s') := rfl

@[simp] theorem on_modify (f : σ → σ) (s : σ) :
    (modify f : Procedure σ PUnit).on s = (.ok ⟨⟩, f s) := rfl

@[simp] theorem on_outcome (r : Except EditError α) (s : σ) :
    (outcome r : Procedure σ α).on s = (r, s) := rfl

@[simp] theorem on_bind (x : Procedure σ α) (f : α → Procedure σ β) (s : σ) :
    (x >>= f).on s = match x.on s with
      | (.ok a, s') => (f a).on s'
      | (.error e, s') => (.error e, s') := by
  have hx : x.on s = x s := rfl
  rw [hx]
  change StateT.bind x (ExceptT.bindCont f) s = _
  unfold StateT.bind
  rcases x s with ⟨e | a, s'⟩ <;> rfl

@[simp] theorem on_map (f : α → β) (x : Procedure σ α) (s : σ) :
    (f <$> x).on s = ((x.on s).1.map f, (x.on s).2) := by
  rw [map_eq_pure_bind, on_bind]
  rcases x.on s with ⟨e | a, s'⟩ <;> rfl

/-- The procedure does what `edit` says, and nothing where `edit` refuses. -/
def Does (x : Procedure σ α) (edit : σ → Except EditError (σ × α)) : Prop :=
  ∀ s, x.on s = match edit s with
    | .ok (s', a) => (.ok a, s')
    | .error e => (.error e, s)

theorem Does.failed {x : Procedure σ α} {edit : σ → Except EditError (σ × α)} (h : x.Does edit)
    {s s' : σ} {e : EditError} (he : x.on s = (.error e, s')) : s' = s ∧ edit s = .error e := by
  rw [h s] at he
  cases hs : edit s with
  | ok r =>
    rw [hs] at he
    cases he
  | error e' =>
    rw [hs] at he
    cases he
    exact ⟨rfl, rfl⟩

theorem Does.done {x : Procedure σ α} {edit : σ → Except EditError (σ × α)} (h : x.Does edit)
    {s s' : σ} {a : α} (ha : x.on s = (.ok a, s')) : edit s = .ok (s', a) := by
  rw [h s] at ha
  cases hs : edit s with
  | ok r =>
    rw [hs] at ha
    cases ha
    rfl
  | error e =>
    rw [hs] at ha
    cases ha

end Procedure

namespace InPlace

open Procedure

def insert (b : Block) : Procedure Script Unit := do
  if ((← get).get? b.id).isSome then throw (.blockExists b.id)
  modify fun s => { s with blocks := s.blocks ++ [b] }

/-- All blocks are taken out, and those that stay are put back. -/
def remove (id : String) : Procedure Script (List Block) := do
  let s : Script ← get
  let stack : List Block ← outcome (s.stackFrom id)
  let ids := stack.map (·.id)
  set { s with blocks := [] }
  modify fun taken => { taken with blocks := s.blocks.filter fun b => !ids.contains b.id }
  return Script.takeOut ids (s.blocks.filter fun b => ids.contains b.id)

def setParam (id name : String) (value : Param) : Procedure Script Unit := do
  match (← get).get? id with
  | none => throw (.unknownBlock id)
  | some b =>
    if (b.kind.param? name).isNone then throw (.noParameter b.kind name)
    modify fun s =>
      { s with blocks := s.blocks.modify (s.blocks.findIdx (·.id == id)) fun b =>
          { b with params := b.params.insert name value } }

def moveStack (id : String) (p : Point) : Procedure Script Point := do
  let s : Script ← get
  let stack : List Block ← outcome (s.stackFrom id)
  match s.get? id with
  | none => throw (.unknownBlock id)
  | some head =>
    let ids := stack.map (·.id)
    let target := Snap.landing s.blocks head.shape p ids
    let d := target.sub head.position
    modify fun s =>
      { s with blocks := s.blocks.map fun b => if ids.contains b.id then b.shift d else b }
    return target

/-- Puts a block together and adds it, under the number that was counted up before. -/
def place (kind : BlockKind) (p : Point) (overrides : Table Param) : Procedure Script Block := do
  let spot := Snap.landing (← get).blocks kind.shape p []
  modify fun s => { s with lastNumber := s.lastNumber + 1 }
  let fresh := Block.create (Script.blockId kind (← get).lastNumber) kind spot
  let block := { fresh with params := fresh.params.extend overrides }
  modify fun s => { s with blocks := s.blocks ++ [block] }
  return block

theorem insert_does (b : Block) : (insert b).Does fun s => (s.insert b).map (·, ()) := by
  intro s
  unfold Script.insert
  cases h : s.get? b.id with
  | some c => simp [insert, h, Except.map]
  | none => simp [insert, h, Except.map]

theorem remove_does (id : String) : (remove id).Does (·.remove id) := by
  intro s
  unfold Script.remove Script.stackFrom
  cases h : s.get? id with
  | none => simp [remove, Script.stackFrom, h]
  | some head => simp [remove, Script.stackFrom, h, Except.map]

theorem setParam_does (id name : String) (value : Param) :
    (setParam id name value).Does fun s => (s.setParam id name value).map (·, ()) := by
  intro s
  unfold Script.setParam
  cases h : s.get? id with
  | none => simp [setParam, h, Except.map]
  | some b =>
    cases hp : b.kind.param? name with
    | none => simp [setParam, h, hp, Except.map]
    | some spec => simp [setParam, h, hp, Except.map]

theorem moveStack_does (id : String) (p : Point) : (moveStack id p).Does (·.moveStack id p) := by
  intro s
  unfold Script.moveStack
  cases h : s.get? id with
  | none => simp [moveStack, Script.stackFrom, h]
  | some head => simp [moveStack, Script.stackFrom, h, Except.map]

theorem place_does (kind : BlockKind) (p : Point) (overrides : Table Param) :
    (place kind p overrides).Does fun s => .ok (s.place kind p overrides) := by
  intro s
  simp [place, Script.place, Except.map]

/-- Works on the script of a sprite. What is done to the script stays, also when it fails. -/
def onScript {α : Type} (sprite : String) (x : Procedure Script α) : Procedure Project α := do
  match (← get).script? sprite with
  | none => throw (.unknownSprite sprite)
  | some s =>
    let (result, s') := x.on s
    modify fun p => { p with scripts := p.scripts.insert sprite s' }
    outcome result

theorem onScript_does {α : Type} {x : Procedure Script α}
    {edit : Script → Except EditError (Script × α)} (h : x.Does edit) (sprite : String) :
    (onScript sprite x).Does (·.editScript sprite edit) := by
  intro p
  unfold Project.editScript
  cases hs : p.script? sprite with
  | none => simp [onScript, hs]
  | some s =>
    have hx := h s
    -- A failed edit leaves its script as it was, and that script is put back in its old place.
    have hself : p.scripts.insert sprite s = p.scripts := Table.insert_self hs
    cases he : edit s with
    | ok r =>
      rw [he] at hx
      simp [onScript, hs, hx, he]
    | error e =>
      rw [he] at hx
      simp [onScript, hs, hx, he, hself]

/-- The script goes first, and only then is it known whether there was one. -/
def deleteSprite (id : String) : Procedure Project Unit := do
  let script := (← get).script? id
  modify fun p => { p with scripts := p.scripts.erase id }
  if script.isNone then throw (.unknownSprite id)
  modify fun p => { p with stage := { p.stage with sprites := p.stage.sprites.erase id } }

/-- The change is tried first, and only then is it known whether there was a sprite. -/
def editSprite (id : String) (f : Sprite → Sprite) : Procedure Project Unit := do
  let sprite := (← get).stage.sprite? id
  modify fun p => { p with stage := p.stage.updateSprite id f }
  if sprite.isNone then throw (.unknownSprite id)

def createVariable (name : String) : Procedure Project String := do
  let name := Text.trim name
  if name = "" then throw .emptyVariableName
  if Text.sameLetters name answerName then throw (.reservedVariableName answerName)
  if ((← get).stage.«variables».get? name).isSome then throw (.variableExists name)
  modify fun p => { p with stage := p.stage.setVariable name (.number 0) }
  modify fun p =>
    { p with stage := { p.stage with monitors := p.stage.monitors.insert name false } }
  return name

def enableExtension (id : String) : Procedure Project Unit := do
  match Extension.find? id with
  | none => throw (.unknownExtension id)
  | some e =>
    if e.id ∉ (← get).extensions then
      modify fun p => { p with extensions := p.extensions ++ [e.id] }

theorem deleteSprite_does (id : String) :
    (deleteSprite id).Does fun p => (p.deleteSprite id).map (·, ()) := by
  intro p
  unfold Project.deleteSprite
  cases h : p.script? id with
  | none =>
    have hsame : p.scripts.erase id = p.scripts := Table.erase_of_get?_none h
    simp [deleteSprite, h, hsame, Except.map]
  | some s => simp [deleteSprite, h, Except.map]

theorem editSprite_does (id : String) (f : Sprite → Sprite) :
    (editSprite id f).Does fun p => (p.editSprite id f).map (·, ()) := by
  intro p
  unfold Project.editSprite
  cases h : p.stage.sprite? id with
  | none =>
    have hsame := Stage.updateSprite_of_none h f
    simp [editSprite, h, hsame, Except.map]
  | some s => simp [editSprite, h, Except.map]

theorem createVariable_does (name : String) :
    (createVariable name).Does (·.createVariable name) := by
  intro p
  simp only [Project.createVariable, createVariable]
  generalize Text.trim name = name
  by_cases hempty : name = ""
  · simp [hempty]
  · by_cases hreserved : Text.sameLetters name answerName = true
    · simp [hempty, hreserved]
    · cases h : p.stage.«variables».get? name with
      | some v => simp [hempty, hreserved, h]
      | none => simp [hempty, hreserved, h, Except.map]

theorem enableExtension_does (id : String) :
    (enableExtension id).Does fun p => (p.enableExtension id).map (·, ()) := by
  intro p
  unfold Project.enableExtension
  cases h : Extension.find? id with
  | none => simp [enableExtension, h, Except.map]
  | some e =>
    by_cases hin : e.id ∈ p.extensions
    · simp [enableExtension, h, hin, Except.map]
    · simp [enableExtension, h, hin, Except.map]

def placeBlock (sprite : String) (kind : BlockKind) (drop : Point) : Procedure Project Block := do
  let overrides := (← get).placementParams kind
  onScript sprite (place kind drop overrides)

theorem placeBlock_does (sprite : String) (kind : BlockKind) (drop : Point) :
    (placeBlock sprite kind drop).Does (·.placeBlock sprite kind drop) := by
  intro p
  have hplace := onScript_does (place_does kind drop (p.placementParams kind)) sprite p
  simpa [placeBlock, Project.placeBlock] using hplace

end InPlace

def Machine.editProject {α : Type} (m : Machine)
    (edit : Project → Except EditError (Project × α)) : Except EditError (Machine × α) :=
  (edit m.world.project).map fun (p, a) => (m.withProject p, a)

namespace InPlace

open Procedure

def onProject {α : Type} (x : Procedure Project α) : Procedure Machine α := do
  let m : Machine ← get
  let (result, p) := x.on m.world.project
  set (m.withProject p)
  outcome result

theorem onProject_does {α : Type} {x : Procedure Project α}
    {edit : Project → Except EditError (Project × α)} (h : x.Does edit) :
    (onProject x).Does (·.editProject edit) := by
  intro m
  have hx := h m.world.project
  have hself : m.withProject m.world.project = m := rfl
  cases he : edit m.world.project with
  | ok r =>
    rw [he] at hx
    simp [onProject, hx, he, Machine.editProject, Except.map]
  | error e =>
    rw [he] at hx
    simp [onProject, hx, he, hself, Machine.editProject, Except.map]

def checkProject : Procedure Machine Unit := do
  if !(← get).attached then throw .foreignProject

def flag (fuel : Nat) : Procedure Machine Unit := do
  checkProject
  modify (·.start fuel .flag)

def click (fuel : Nat) (sprite : String) : Procedure Machine Unit := do
  checkProject
  if (← get).world.state = .running then
    modify fun m => (m.mapWorld (·.send (.click sprite))).deliver.returnNow (.ok ())
  else modify (·.start fuel (.click sprite))

theorem flag_does (fuel : Nat) :
    (flag fuel).Does fun m =>
      if m.attached then .ok (m.flag fuel, ()) else .error .foreignProject := by
  intro m
  by_cases h : m.attached = true
  · simp [flag, checkProject, Machine.flag, h]
  · simp [flag, checkProject, h]

theorem click_does (fuel : Nat) (sprite : String) :
    (click fuel sprite).Does fun m =>
      if m.attached then .ok (m.click fuel sprite, ()) else .error .foreignProject := by
  intro m
  by_cases h : m.attached = true
  · by_cases hs : m.world.state = .running
    · simp [click, checkProject, Machine.click, h, hs]
    · simp [click, checkProject, Machine.click, h, hs]
  · simp [click, checkProject, h]

end InPlace

/-- The calls of the host that can fail, by what they return. -/
inductive Call : Type → Type
  | deleteSprite (id : String) : Call Unit
  | editSprite (id : String) (f : Sprite → Sprite) : Call Unit
  | placeBlock (sprite : String) (kind : BlockKind) (drop : Point) : Call Block
  | createVariable (name : String) : Call String
  | enableExtension (id : String) : Call Unit
  | insertBlock (sprite : String) (b : Block) : Call Unit
  | removeBlock (sprite id : String) : Call (List Block)
  | setParam (sprite id name : String) (value : Param) : Call Unit
  | moveStack (sprite id : String) (p : Point) : Call Point
  | flag (fuel : Nat) : Call Unit
  | click (fuel : Nat) (sprite : String) : Call Unit

namespace Call

variable {α : Type}

/-- What a call returns with the machine after it, or why it is refused. -/
def result : Call α → Machine → Except EditError (Machine × α)
  | deleteSprite id => (·.editProject fun p => (p.deleteSprite id).map (·, ()))
  | editSprite id f => (·.editProject fun p => (p.editSprite id f).map (·, ()))
  | placeBlock sprite kind drop => (·.editProject (·.placeBlock sprite kind drop))
  | createVariable name => (·.editProject (·.createVariable name))
  | enableExtension id => (·.editProject fun p => (p.enableExtension id).map (·, ()))
  | insertBlock sprite b =>
    (·.editProject (·.editScript sprite fun s => (s.insert b).map (·, ())))
  | removeBlock sprite id => (·.editProject (·.editScript sprite (·.remove id)))
  | setParam sprite id name value =>
    (·.editProject (·.editScript sprite fun s => (s.setParam id name value).map (·, ())))
  | moveStack sprite id p => (·.editProject (·.editScript sprite (·.moveStack id p)))
  | flag fuel => fun m => if m.attached then .ok (m.flag fuel, ()) else .error .foreignProject
  | click fuel sprite => fun m =>
    if m.attached then .ok (m.click fuel sprite, ()) else .error .foreignProject

def inPlace : Call α → Procedure Machine α
  | deleteSprite id => InPlace.onProject (InPlace.deleteSprite id)
  | editSprite id f => InPlace.onProject (InPlace.editSprite id f)
  | placeBlock sprite kind drop => InPlace.onProject (InPlace.placeBlock sprite kind drop)
  | createVariable name => InPlace.onProject (InPlace.createVariable name)
  | enableExtension id => InPlace.onProject (InPlace.enableExtension id)
  | insertBlock sprite b => InPlace.onProject (InPlace.onScript sprite (InPlace.insert b))
  | removeBlock sprite id => InPlace.onProject (InPlace.onScript sprite (InPlace.remove id))
  | setParam sprite id name value =>
    InPlace.onProject (InPlace.onScript sprite (InPlace.setParam id name value))
  | moveStack sprite id p => InPlace.onProject (InPlace.onScript sprite (InPlace.moveStack id p))
  | flag fuel => InPlace.flag fuel
  | click fuel sprite => InPlace.click fuel sprite

section

open InPlace

theorem inPlace_does (c : Call α) : c.inPlace.Does c.result := by
  cases c <;> simp only [inPlace, result]
  case deleteSprite id => exact onProject_does (deleteSprite_does id)
  case editSprite id f => exact onProject_does (editSprite_does id f)
  case placeBlock sprite kind drop => exact onProject_does (placeBlock_does sprite kind drop)
  case createVariable name => exact onProject_does (createVariable_does name)
  case enableExtension id => exact onProject_does (enableExtension_does id)
  case insertBlock sprite b => exact onProject_does (onScript_does (insert_does b) sprite)
  case removeBlock sprite id => exact onProject_does (onScript_does (remove_does id) sprite)
  case setParam sprite id name value =>
    exact onProject_does (onScript_does (setParam_does id name value) sprite)
  case moveStack sprite id p => exact onProject_does (onScript_does (moveStack_does id p) sprite)
  case flag fuel => exact flag_does fuel
  case click fuel sprite => exact click_does fuel sprite

end

/-- The machine that a run's call leaves behind, where a refused call only returns. -/
def left (m : Machine) : Except EditError (Machine × Unit) → Machine
  | .ok (m', _) => m'
  | .error e => m.returnNow (.error e)

theorem flag_left (m : Machine) (fuel : Nat) : m.flag fuel = left m ((flag fuel).result m) := by
  simp only [result]
  split
  · rfl
  · rename_i h
    exact if_neg h

theorem click_left (m : Machine) (fuel : Nat) (sprite : String) :
    m.click fuel sprite = left m ((click fuel sprite).result m) := by
  simp only [result]
  split
  · rfl
  · rename_i h
    exact if_pos (by simpa using h)

/-- A call that fails leaves the machine as it was, whatever it has changed before it came to
fail. -/
theorem failed_calls_change_nothing (c : Call α) :
    (∀ m e m', c.inPlace.on m = (.error e, m') → m' = m ∧ c.result m = .error e) ∧
    (∀ m a m', c.inPlace.on m = (.ok a, m') → c.result m = .ok (m', a)) ∧
    (∀ m fuel, m.flag fuel = left m ((flag fuel).result m)) ∧
    ∀ m fuel sprite, m.click fuel sprite = left m ((click fuel sprite).result m) := by
  have hdoes := c.inPlace_does
  exact ⟨fun m e m' h => hdoes.failed h, fun m a m' h => hdoes.done h, flag_left, click_left⟩

/-- One sprite with a hat and a block below it, and a variable that is not zero. -/
def furnished : Project :=
  { Project.initial with
    stage := Project.initial.stage.setVariable "score" (.number 7)
    scripts := Project.initial.scripts.insert "sprite-1"
      ⟨[.create "a" .whenFlagClicked ⟨0, 0⟩, .create "b" .hideSprite ⟨0, 40⟩], 2⟩ }

theorem failed_deletion_changes_nothing :
    ∃ m', (deleteSprite "sprite-2").inPlace.on (.create furnished {} {}) =
        (.error (.unknownSprite "sprite-2"), m') ∧ m' = .create furnished {} {} ∧
      m'.world.project.scripts.map (fun entry => entry.2.blocks.map (·.id)) = [["a", "b"]] ∧
      m'.world.stage.valueOf "score" = .number 7 := by
  have he : (deleteSprite "sprite-2").inPlace.on (.create furnished {} {}) =
      (.error (.unknownSprite "sprite-2"), _) := rfl
  have hsame := ((failed_calls_change_nothing (deleteSprite "sprite-2")).1 _ _ _ he).1
  rw [hsame] at he
  exact ⟨_, he, rfl, rfl, rfl⟩

end Call

end BlockScript

import BlockScript.EditError
import BlockScript.Snap

/-! The script of a sprite: its blocks in the order they were added, and the edits on them. -/

namespace BlockScript

structure Script where
  blocks : List Block
  lastNumber : Nat

namespace Script

def empty : Script := ⟨[], 0⟩

def get? (s : Script) (id : String) : Option Block :=
  s.blocks.find? (·.id == id)

def hats (s : Script) : List Block :=
  s.blocks.filter (·.shape == .hat)

def blockId (kind : BlockKind) (n : Nat) : String :=
  kind.identifier ++ "-" ++ .ofList (Nat.toDigits 10 n)

/-- Adds a block of kind `kind` dropped at `p`, where `overrides` replace its first bindings. -/
def place (s : Script) (kind : BlockKind) (p : Point) (overrides : Table Param) :
    Script × Block :=
  let fresh := Block.create (blockId kind (s.lastNumber + 1)) kind
    (Snap.landing s.blocks kind.shape p [])
  let block := { fresh with params := fresh.params.extend overrides }
  (⟨s.blocks ++ [block], s.lastNumber + 1⟩, block)

def insert (s : Script) (b : Block) : Except EditError Script :=
  match s.get? b.id with
  | some _ => .error (.blockExists b.id)
  | none => .ok { s with blocks := s.blocks ++ [b] }

/-- The block called `id` and everything below it. -/
def stackFrom (s : Script) (id : String) : Except EditError (List Block) :=
  match s.get? id with
  | some head => .ok (Layout.stack s.blocks head)
  | none => .error (.unknownBlock id)

/-- Takes the blocks called `ids` out of `pool`, one after the other. Each time the last block of
the pool fills the gap. -/
def takeOut : List String → List Block → List Block
  | [], _ => []
  | id :: ids, pool =>
    match pool.find? (·.id == id) with
    | none => takeOut ids pool
    | some b =>
      b :: takeOut ids (pool.set (pool.findIdx (·.id == id)) (pool.getLastD b)).dropLast

/-- Takes out the block called `id` and everything below it. Bodies are left behind. -/
def remove (s : Script) (id : String) : Except EditError (Script × List Block) := do
  let stack ← s.stackFrom id
  let ids := stack.map (·.id)
  return ({ s with blocks := s.blocks.filter fun b => !ids.contains b.id },
    takeOut ids (s.blocks.filter fun b => ids.contains b.id))

def setParam (s : Script) (id name : String) (value : Param) : Except EditError Script :=
  match s.get? id with
  | none => .error (.unknownBlock id)
  | some b =>
    match b.kind.param? name with
    | none => .error (.noParameter b.kind name)
    | some _ =>
      .ok { s with blocks := s.blocks.modify (s.blocks.findIdx (·.id == id)) fun b =>
        { b with params := b.params.insert name value } }

/-- Drags the block called `id` with everything below it, so that it lands at `p` or at the
attachment next to it. All of them move by the same amount. -/
def moveStack (s : Script) (id : String) (p : Point) : Except EditError (Script × Point) :=
  match s.get? id with
  | none => .error (.unknownBlock id)
  | some head =>
    let ids := (Layout.stack s.blocks head).map (·.id)
    let target := Snap.landing s.blocks head.shape p ids
    let d := target.sub head.position
    .ok ({ s with blocks := s.blocks.map fun b => if ids.contains b.id then b.shift d else b },
      target)

end Script

end BlockScript

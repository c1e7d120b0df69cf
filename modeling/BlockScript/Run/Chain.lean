import BlockScript.Run.Trigger
import BlockScript.Texture

/-! Chains: the suspended work of one hat. A chain keeps a stack of the blocks it is inside of,
and what it does when it is resumed. -/

namespace BlockScript

/-- A chain is inside a `step` while that block runs: a pause and its successor follow. It is
inside a `loop` while the body of `block` runs, which it does until `times` rounds are done. -/
inductive Frame where
  | step (blocks : List Block) (block : Block) (depth : Nat)
  | loop (blocks : List Block) (block : Block) (depth : Nat) (done : Float) (times : Option Float)

inductive Purpose where
  | step
  | emptyBody
  | speech
  | delay
  | condition (block : Block)
  | sound (generation : Nat)
  | texture (request : ObjectRequest)
  | failure

/-- A pause without a due time never ends by itself. -/
inductive Wait where
  | pause (due : Option Nat) (purpose : Purpose)
  | reply (ask : Nat) (answer : Option String)

inductive Task where
  | start (blocks : List Block) (hat : Block)
  | block (blocks : List Block) (block : Block) (depth : Nat)
  | body (blocks : List Block) (block : Block) (depth : Nat)
  | round
  | look (block : Block)
  | pause (duration : Option Nat) (purpose : Purpose)
  | resume
  | wait (w : Wait)

structure Chain where
  id : Nat
  sprite : String
  frames : List Frame
  task : Task

namespace Chain

def isWaiting (c : Chain) : Bool :=
  match c.task with
  | .wait _ => true
  | _ => false

def due? (c : Chain) : Option Nat :=
  match c.task with
  | .wait (.pause due _) => due
  | _ => none

/-- Whether the chain waits in a pause, which a stop ends. -/
def isPausing (c : Chain) : Bool :=
  match c.task with
  | .wait (.pause ..) => true
  | _ => false

/-- Whether the chain waits for a sound that was playing before cut number `generation`. -/
def hearsCut (generation : Nat) (c : Chain) : Bool :=
  match c.task with
  | .wait (.pause _ (.sound g)) => g != generation
  | _ => false

def awaits (ask : Nat) (c : Chain) : Bool :=
  match c.task with
  | .wait (.reply a none) => a == ask
  | _ => false

/-- Hands the chain the answer to its ask. -/
def receive (ask : Nat) (answer : String) (c : Chain) : Chain :=
  if c.awaits ask then { c with task := .wait (.reply ask (some answer)) } else c

end Chain

end BlockScript

import BlockScript.Run.Chain
import BlockScript.Run.World

/-! Runs: the chains that one flag or click has started, and the triggers that wait for them. -/

namespace BlockScript

/-- A run first waits, then goes on until it has no chain left. -/
inductive Phase where
  | starting (due : Nat)
  | going
  deriving DecidableEq

/-- `chains` are in the order in which they began to wait, and `ready` are those that can go on,
in the order in which they were woken. -/
structure Run where
  call : Nat
  scripts : Table Script
  first : Trigger
  phase : Phase
  queue : List Trigger
  chains : List Chain
  ready : List Nat

namespace Run

/-- Marks chains as ready. A chain that is ready already keeps its turn. -/
def wake (r : Run) (which : Chain → Bool) : Run :=
  let woken := r.chains.filter fun c => which c && !r.ready.contains c.id
  { r with ready := r.ready ++ woken.map (·.id) }

/-- Hands a reply to the chain that waits for it, and wakes it. -/
def receive (r : Run) (ask : Nat) (answer : String) : Run :=
  let r := r.wake (·.awaits ask)
  { r with chains := r.chains.map (·.receive ask answer) }

/-- Whether the run has something to do at once. -/
def canGo (w : World) (r : Run) : Bool :=
  match r.phase with
  | .starting due => !w.running || due ≤ w.now
  | .going => !r.queue.isEmpty || !r.ready.isEmpty || r.chains.isEmpty

/-- The times at which the run goes on by itself. -/
def dues (r : Run) : List Nat :=
  match r.phase with
  | .starting due => [due]
  | .going => r.chains.filterMap (·.due?)

end Run

end BlockScript

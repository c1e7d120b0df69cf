import BlockScript.Run.Machine
import BlockScript.Run.Resume

/-! Taking turns. Ready chains are resumed first in, first out; triggers are handled before
chains, and again each time a chain has ended. -/

namespace BlockScript.Machine

/-- Puts a chain that was resumed back into its run, behind the chains that already wait. A
chain that ran out of fuel goes on first. -/
def putBack (m : Machine) (call id : Nat) (chain : Option Chain) : Machine :=
  m.mapRun call fun r =>
    let others := r.chains.filter (·.id != id)
    match chain with
    | none => { r with chains := others }
    | some c =>
      { r with
        chains := others ++ [c]
        ready := if c.isWaiting then r.ready else c.id :: r.ready }

/-- Resumes a chain of a run. Says whether it ended. A chain whose wait is not over stays where
it is. -/
def resumeChain (fuel : Nat) (m : Machine) (call id : Nat) : Machine × Bool :=
  let m := m.mapRun call fun r => { r with ready := r.ready.erase id }
  match (m.run? call).bind fun r => (r.chains.find? (·.id == id)).map ((r.scripts, ·)) with
  | none => (m, false)
  | some (scripts, chain) =>
    if chain.canResume m.world then
      let (world, chain) := chain.run scripts fuel m.world
      (({ m with world }.putBack call id chain).deliver, chain.isNone)
    else (m, false)

/-- Resumes ready chains until one has ended, at most `turns` of them. -/
def pass (fuel : Nat) : Nat → Machine → Nat → Machine × Bool
  | 0, m, _ => (m, false)
  | turns + 1, m, call =>
    match (m.run? call).bind (·.ready.head?) with
    | none => (m, false)
    | some id =>
      match m.resumeChain fuel call id with
      | (m, true) => (m, true)
      | (m, false) => pass fuel turns m call

def alive (m : Machine) (call : Nat) : Nat :=
  match m.run? call with
  | some r => r.chains.length
  | none => 0

/-- Lets a run go on until it has to wait. -/
def poll : Nat → Machine → Nat → Machine
  | 0, m, _ => m
  | fuel + 1, m, call =>
    match m.run? call with
    | none => m
    | some r =>
      match r.phase with
      | .starting due =>
        if !m.world.running then m.finish call
        else if due ≤ m.world.now then poll fuel (m.beginRun call) call
        else m
      | .going =>
        let m := m.handleTriggers call
        if m.alive call = 0 then m.finish call
        else match m.pass (fuel + 1) (m.alive call) call with
          | (m, true) => poll fuel m call
          | (m, false) => m

/-- Lets every run go on in turn, as long as one of them can. -/
def settle (fuel : Nat) : Nat → Machine → Machine
  | 0, m => m
  | rounds + 1, m =>
    if m.runs.any (·.canGo m.world) then
      settle fuel rounds ((m.runs.map (·.call)).foldl (poll fuel) m)
    else m

/-- Starts a run, unless one is going on. -/
def start (fuel : Nat) (m : Machine) (t : Trigger) : Machine :=
  if m.world.state = .running then
    (m.mapWorld (·.note (.alreadyRunning t))).returnNow (.ok ())
  else
    let call := m.calls
    let run : Run :=
      { call, scripts := m.world.project.scripts, first := t, queue := [], chains := [], ready := []
        phase := .starting (m.world.now + m.world.options.startDelay) }
    let m := m.mapWorld fun w =>
      ({ w with state := RunState.running, running := true, sender := some call }.mapStage
        (·.clearSpeech)).note (.runStarted t)
    poll fuel { m with runs := m.runs ++ [run], calls := call + 1 } call

def flag (fuel : Nat) (m : Machine) : Machine :=
  if m.attached then m.start fuel .flag else m.returnNow (.error .foreignProject)

/-- A click joins the run that is going on, or starts one. -/
def click (fuel : Nat) (m : Machine) (sprite : String) : Machine :=
  if !m.attached then m.returnNow (.error .foreignProject)
  else if m.world.state = .running then
    (m.mapWorld (·.send (.click sprite))).deliver.returnNow (.ok ())
  else m.start fuel (.click sprite)

end BlockScript.Machine

import BlockScript.Run.Basic

/-! The machine that runs a project: the world that chains share, the runs that have not ended,
and what stops and answers do to them. A second run may begin before a stopped one has
noticed. -/

namespace BlockScript

/-- `returned` lists the calls that have returned, each with its time. A machine that is not
`attached` belongs to another project. -/
structure Machine where
  world : World
  attached : Bool
  runs : List Run
  calls : Nat
  lastChain : Nat
  returned : List (Nat × Nat × Except EditError Unit)

namespace Machine

def create (project : Project) (options : Options) (services : Services) : Machine where
  world :=
    { project, options, services, state := .idle, running := false, asks := [], lastAsk := 0,
      sender := none, sent := [], generation := 0, now := 0, dice := services.dice, log := #[] }
  attached := true
  runs := []
  calls := 0
  lastChain := 0
  returned := []

def run? (m : Machine) (call : Nat) : Option Run :=
  m.runs.find? (·.call == call)

def mapWorld (m : Machine) (f : World → World) : Machine :=
  { m with world := f m.world }

def mapRuns (m : Machine) (f : Run → Run) : Machine :=
  { m with runs := m.runs.map f }

def mapRun (m : Machine) (call : Nat) (f : Run → Run) : Machine :=
  m.mapRuns fun r => if r.call = call then f r else r

/-- Gives the asks `asks` the empty answer. -/
def replyEmpty (m : Machine) (asks : List Nat) : Machine :=
  asks.foldl (fun m ask => m.mapRuns (·.receive ask "")) m

/-- Ends every chain at its next turn. Pending asks get the empty answer, speech and questions
are cleared, and sounds are cut. -/
def halt (m : Machine) : Machine :=
  let m := (m.mapWorld fun w => { w with running := false }).mapRuns (·.wake Chain.isPausing)
  let m := m.replyEmpty m.world.asks
  m.mapWorld fun w =>
    let w := { w with asks := [] }
    let w := if m.attached then w.mapStage fun s => { s.clearSpeech with prompts := [] } else w
    w.stopSounds

def stop (m : Machine) : Machine :=
  let m := m.mapWorld fun w =>
    { w with state := w.state.stop }.note .stopRequested
  m.halt

/-- Answers the oldest ask. Says whether there was one. -/
def answer (m : Machine) (text : String) : Machine × Bool :=
  match m.world.asks with
  | [] => (m, false)
  | ask :: rest =>
    let m := m.mapWorld fun w =>
      { w with asks := rest }.mapStage fun s =>
        { s with prompts := s.prompts.filter (·.id != ask) }
    (m.mapRuns (·.receive ask text), true)

def startChain (call : Nat) (m : Machine) : String × Script × Block → Machine
  | (sprite, script, hat) =>
    let chain : Chain := ⟨m.lastChain + 1, sprite, [], .start script.blocks hat⟩
    let m := m.mapWorld (·.note (.chainStarted hat.id sprite))
    let m := m.mapRun call fun r =>
      { r with chains := r.chains ++ [chain], ready := r.ready ++ [chain.id] }
    { m with lastChain := chain.id }

/-- Starts one chain for each hat that the trigger matches. -/
def spawn (m : Machine) (call : Nat) (t : Trigger) : Machine :=
  match m.run? call with
  | none => m
  | some r => (t.hats r.scripts).foldl (startChain call) m

def beginRun (m : Machine) (call : Nat) : Machine :=
  match m.run? call with
  | none => m
  | some r => (m.mapRun call fun r => { r with phase := .going }).spawn call r.first

/-- Handles the triggers that wait in the queue of a run. They are dropped after a stop. -/
def handleTriggers (m : Machine) (call : Nat) : Machine :=
  match m.run? call with
  | none => m
  | some r =>
    let m := m.mapRun call fun r => { r with queue := [] }
    if m.world.running then r.queue.foldl (fun m t => m.spawn call t) m else m

/-- Queues the triggers that were just sent, and wakes chains whose sound was cut. -/
def deliver (m : Machine) : Machine :=
  let sent := m.world.sent
  let m := match m.world.sender with
    | some call => m.mapRun call fun r => { r with queue := r.queue ++ sent }
    | none => m
  let m := m.mapWorld fun w => { w with sent := [] }
  m.mapRuns (·.wake (·.hearsCut m.world.generation))

def finish (m : Machine) (call : Nat) : Machine :=
  let m := m.mapWorld fun w => { w with state := w.state.finish, sender := none }
  let m := { m with runs := m.runs.filter (·.call != call) }.halt
  let m := m.mapWorld fun w => w.note (.runFinished w.state)
  { m with returned := m.returned ++ [(call, m.world.now, .ok ())] }

def fireTimers (m : Machine) : Machine :=
  m.mapRuns (·.wake fun c => c.due?.any (· ≤ m.world.now))

def returnNow (m : Machine) (result : Except EditError Unit) : Machine :=
  { m with
    calls := m.calls + 1
    returned := m.returned ++ [(m.calls, m.world.now, result)] }

end Machine

end BlockScript

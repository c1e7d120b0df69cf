import BlockScript.Run.Command

/-! A machine under a clock. Time jumps from one timer or command to the next; at each instant
timers fire, then the host acts, then the runs go on. -/

namespace BlockScript

/-- Commands still to come are in order of time. `limit` is when calls that have not returned
are stopped, which happens once. -/
structure Session where
  machine : Machine
  commands : List (Nat × Command)
  limit : Nat
  limitHit : Bool
  replies : Array (Nat × Reply)

namespace Session

def now (s : Session) : Nat :=
  s.machine.world.now

/-- Carries out the commands that are due. -/
def obeyDue (fuel : Nat) (m : Machine) (replies : Array (Nat × Reply)) :
    List (Nat × Command) → Machine × Array (Nat × Reply) × List (Nat × Command)
  | [] => (m, replies, [])
  | (time, command) :: rest =>
    if time ≤ m.world.now then
      let (m, reply) := m.obey fuel command
      obeyDue fuel m (replies.push (m.world.now, reply)) rest
    else (m, replies, (time, command) :: rest)

/-- Stops the runs that go on at the limit. -/
def enforceLimit (s : Session) : Session :=
  if !s.limitHit && s.limit ≤ s.now && !s.machine.runs.isEmpty then
    { s with machine := s.machine.stop, limitHit := true }
  else s

def instant (fuel : Nat) (s : Session) : Session :=
  let (machine, replies, commands) := obeyDue fuel s.machine.fireTimers s.replies s.commands
  let s := { s with machine, replies, commands }.enforceLimit
  { s with machine := s.machine.settle fuel fuel }

def isDone (s : Session) : Bool :=
  s.commands.isEmpty && s.machine.runs.isEmpty

def nextTime? (s : Session) : Option Nat :=
  let commands := (s.commands.map (·.1)).take 1
  let limit := if s.limitHit || s.machine.runs.isEmpty then [] else [s.limit]
  let timers := s.machine.runs.flatMap Run.dues
  ((commands ++ limit ++ timers).filter (s.now < ·)).min?

def advance (s : Session) (time : Nat) : Session :=
  { s with machine := s.machine.mapWorld fun w => { w with now := time } }

/-- Goes through at most `fuel` instants, until every command is done and every call has
returned. -/
def go (fuel : Nat) : Nat → Session → Session
  | 0, s => s
  | instants + 1, s =>
    let s := s.instant fuel
    if s.isDone then s
    else match s.nextTime? with
      | some time => go fuel instants (s.advance time)
      | none => s

/-- Plays a list of timed commands on a clock that starts at zero. -/
def play (fuel : Nat) (m : Machine) (commands : List (Nat × Command)) (limit : Nat) : Session :=
  let m := { m with world := { m.world with now := 0, log := #[] }, calls := 0, returned := [] }
  go fuel fuel
    { machine := m, commands := commands, limit := limit, limitHit := false, replies := #[] }

end Session

end BlockScript

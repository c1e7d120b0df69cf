import BlockScript.Proofs.Layout.Stack
import BlockScript.Proofs.Run.Answer
import BlockScript.Proofs.Run.Completion
import BlockScript.Proofs.Run.Nesting

/-! Sequences. A sequence begins a block, goes on when the block is done, and takes the successor
of the block next, whatever other chains and the user do meanwhile. It has no memory of the blocks
it has begun, so it begins the blocks of the stack and ends if and only if the stack ends. -/

namespace BlockScript

/-- What happens to a chain: it takes a step in some world, or it gets a reply. -/
inductive Tick where
  | step (scripts : Table Script) (w : World)
  | reply (ask : Nat) (text : String)

namespace Tick

def running : Tick → Bool
  | step _ w => w.running
  | reply .. => true

/-- Whether the tick is a step at the time `time` or later. -/
def isStepFrom (time : Nat) : Tick → Bool
  | step _ w => time ≤ w.now
  | reply .. => false

end Tick

/-- The run is never stopped, time goes on, and the chain has its turn again and again. -/
structure Lively (ts : Nat → Tick) : Prop where
  running : ∀ n, (ts n).running = true
  lasting : ∀ n time, ∃ k ≥ n, (ts k).isStepFrom time = true

def Task.isStart : Task → Bool
  | .start .. => true
  | _ => false

/-- What follows the pause after the block `b`. -/
def Task.following (blocks : List Block) (b : Block) (depth : Nat) : Task :=
  match Layout.successor blocks b with
  | some next => .block blocks next depth
  | none => .resume

theorem Task.not_isStart_following (blocks : List Block) (b : Block) (depth : Nat) :
    (following blocks b depth).isStart = false := by
  unfold following
  split <;> rfl

theorem Task.not_isStart_of_winds {task : Task} (h : task.winds = true) : task.isStart = false := by
  cases task with
  | start => cases h
  | _ => rfl

theorem World.Effect.not_isStart {w w' : World} {sprite : String} {blocks : List Block} {b : Block}
    {depth : Nat} {arg : String → Value} {frame : Option Frame} {task : Task}
    (h : w.Effect sprite blocks b depth arg w' frame task) : task.isStart = false := by
  cases h.entered.2 with
  | loop | body | script => rfl
  | winds h => exact Task.not_isStart_of_winds h

namespace Chain

def tick (c : Chain) : Tick → Option Chain
  | .step scripts w => (c.step scripts w).2
  | .reply ask text => some (c.receive ask text)

/-- The block that the tick begins: the next one, if the step records that a block begins. -/
def begun? (c : Chain) : Tick → Option Block
  | .step scripts w =>
    match c.task with
    | .block _ b depth =>
      if (c.step scripts w).1.depths = w.depths ++ [depth] then some b else none
    | _ => none
  | .reply .. => none

/-- How a step moves the frames in a run that goes on. A block is left only in the pause after it,
and its successor is next. -/
inductive Moved (c : Chain) : Option Chain → Prop
  | ended (hc : c.frames = []) : Moved c none
  | deeper {d : Chain} (inner : List Frame) (hd : d.frames = inner ++ c.frames)
    (ht : d.task.isStart = false) : Moved c (some d)
  | round {d : Chain} {blocks : List Block} {b : Block} {depth : Nat} {done : Float}
    {times : Option Float} {outer : List Frame} (rounds : List Frame)
    (hc : c.frames = .loop blocks b depth done times :: outer) (hd : d.frames = rounds ++ outer)
    (ht : d.task.isStart = false) : Moved c (some d)
  | leaves {d : Chain} {blocks : List Block} {b : Block} {depth : Nat} {outer : List Frame}
    (hc : c.frames = .step blocks b depth :: outer) (hd : d.frames = outer)
    (ht : d.task = .following blocks b depth) : Moved c (some d)

theorem moved_of_sequel {w w' : World} {c : Chain} {purpose : Purpose} {frames : List Frame}
    {task : Task} (hq : w.Sequel c.sprite c.frames true purpose w' frames task) :
    c.Moved (some { c with frames := frames, task := task }) := by
  cases hq with
  | next hf hg hs => exact .leaves hf rfl (by simp only [Task.following, hs])
  | last hf hs => exact .leaves hf rfl (by simp only [Task.following, hs rfl])
  | _ => exact .deeper [] rfl rfl

theorem step_block {w : World} (hw : w.running = true) (scripts : Table Script) {c : Chain}
    {blocks : List Block} {b : Block} {depth : Nat} (hc : c.task = .block blocks b depth) :
    ∃ d inner, (c.step scripts w).2 = some d ∧
      d.frames = inner ++ .step blocks b depth :: c.frames ∧ d.task.isStart = false := by
  rw [step_entered hc hw]
  exact ⟨_, _, rfl, rfl, (World.perform_effect ..).not_isStart⟩

theorem step_moved {w : World} (hw : w.running = true) (scripts : Table Script) {c : Chain}
    (hc : c.task.isStart = false) : c.Moved (c.step scripts w).2 := by
  have hs := c.step_transition scripts w
  generalize (c.step scripts w).1 = w', (c.step scripts w).2 = c' at hs ⊢
  cases hs with
  | first ht | bare ht =>
    rw [ht] at hc
    cases hc
  | @begins blocks b depth w' frame task ht hr hp =>
    refine .deeper (frame.toList ++ [.step blocks b depth]) (by simp) ?_
    exact (World.Effect.of_perform hp).not_isStart
  | leaves ht hf => exact .round [] hf rfl rfl
  | rounds ht hf => exact .round [_] hf rfl rfl
  | hurries ht hd hq => exact moved_of_sequel (hw ▸ hq)
  | wakes ht ho hq => exact moved_of_sequel (hw ▸ hq)
  | ends ht hf => exact .ended hf
  | stays => exact .deeper [] rfl hc
  | passes | capped | enters | hollow | again | astray | sees | misses | waits | hears | finishes =>
    exact .deeper [] rfl rfl

section

variable {c : Chain} {blocks : List Block} {b : Block} {depth : Nat} {outer : List Frame} {w : World}

theorem tick_done (hf : c.frames = .step blocks b depth :: outer) (ht : c.task = .resume)
    (scripts : Table Script) (w : World) :
    c.tick (.step scripts w) = some { c with task := .pause (some w.options.stepDelay) .step } := by
  simp only [tick, step, ht, hf]

theorem tick_pause (hw : w.running = true) (hf : c.frames = .step blocks b depth :: outer)
    {delay : Nat} (ht : c.task = .pause (some delay) .step) (scripts : Table Script) :
    c.tick (.step scripts w) = some (if delay = 0 then
      { c with frames := outer, task := .following blocks b depth }
      else { c with task := .wait (.pause (some (w.now + delay)) .step) }) := by
  by_cases hd : delay = 0
  · subst hd
    simp only [tick, step, ht, hf, hw, World.afterPause, Task.following]
    cases Layout.successor blocks b <;> rfl
  · have hne : (some delay != some 0) = true := by simpa using hd
    simp only [tick, step, ht, hw, hne, if_neg hd]
    rfl

theorem tick_wait (hw : w.running = true) (hf : c.frames = .step blocks b depth :: outer)
    {due : Nat} (ht : c.task = .wait (.pause (some due) .step)) (scripts : Table Script) :
    c.tick (.step scripts w) = some (if due ≤ w.now then
      { c with frames := outer, task := .following blocks b depth } else c) := by
  have hover : w.isOver (.pause (some due) .step) = decide (due ≤ w.now) := by
    simp [World.isOver, hw]
  by_cases hd : due ≤ w.now
  · simp only [tick, step, ht, hf, hw, hover, hd, World.afterPause, Task.following]
    cases Layout.successor blocks b <;> rfl
  · simp only [tick, step, ht, hover, hd]
    rfl

end

theorem tick_moved {t : Tick} (hr : t.running = true) {c : Chain} (hc : c.task.isStart = false) :
    c.Moved (c.tick t) := by
  cases t with
  | step scripts w => exact step_moved hr scripts hc
  | reply ask text =>
    rw [tick, receive]
    split
    · exact .deeper [] rfl rfl
    · exact .deeper [] rfl hc

/-- A chain that does not wait for a reply ignores replies. -/
theorem tick_reply {c : Chain} (h : c.ask? = none) (ask : Nat) (text : String) :
    c.tick (.reply ask text) = some c := by
  have ha : ¬ c.awaits ask = true := by
    rw [awaits_iff, h]
    nofun
  rw [tick, receive, if_neg ha]

def ticks (c : Chain) (ts : List Tick) : Option Chain :=
  ts.foldlM tick c

theorem ticks_cons (c : Chain) (t : Tick) (ts : List Tick) :
    c.ticks (t :: ts) = (c.tick t).bind (·.ticks ts) := by
  simp only [ticks, List.foldlM_cons]
  rfl

theorem ticks_append (c : Chain) (ts ts' : List Tick) :
    c.ticks (ts ++ ts') = (c.ticks ts).bind (·.ticks ts') := by
  simp only [ticks, List.foldlM_append]
  rfl

/-- The steps of a resumption. -/
def steps (scripts : Table Script) (fuel : Nat) (w : World) (c : Chain) : List Tick :=
  (c.moments scripts fuel w).map fun p => .step scripts p.1

theorem run_ticks (scripts : Table Script) (fuel : Nat) (w : World) (c : Chain) :
    (c.run scripts fuel w).2 = c.ticks (c.steps scripts fuel w) := by
  induction fuel generalizing w c with
  | zero => rfl
  | succ fuel ih =>
    have htick : c.tick (.step scripts w) = (c.step scripts w).2 := rfl
    rw [run, steps, moments, List.map_cons, ticks_cons, htick]
    generalize c.step scripts w = p
    obtain ⟨w', _ | d⟩ := p
    · rfl
    · simp only [Option.bind_some]
      split
      · rfl
      · exact ih w' d

theorem settled_ticks (asks : List Nat) (text : String) (c : Chain) :
    c.ticks ((gained (some c) (c.settled asks text)).toList.map fun p => .reply p.1 p.2) =
      some (c.settled asks text) := by
  rw [gained_settled]
  by_cases h : ∀ ask ∈ c.ask?, ask ∉ asks
  · have hnone : c.ask?.filter (· ∈ asks) = none := by
      simpa [Option.filter_eq_none_iff] using h
    rw [hnone, settled_of_idle h]
    rfl
  · push Not at h
    obtain ⟨ask, ha, hmem⟩ := h
    have hreceive : c.receive ask text = { c with task := .wait (.reply ask (some text)) } :=
      if_pos (awaits_iff.mpr ha)
    rw [show c.ask? = some ask from ha, Option.filter_some_pos (by simpa using hmem),
      settled_of_mem ha hmem, ← hreceive]
    rfl

end Chain

namespace Machine

/-- The reply that a chain gets between two machines. -/
def replyTicks (call id : Nat) (m m' : Machine) : List Tick :=
  ((m'.chain? call id).bind (Chain.gained (m.chain? call id))).toList.map fun p => .reply p.1 p.2

/-- What happens to a chain in an event: it takes the steps of a resumption, or it gets a reply. -/
def ticksBy (call id : Nat) (m : Machine) (e : Event) (m' : Machine) : List Tick :=
  match e with
  | .resumeChain fuel k i =>
    match if k = call ∧ i = id then m.resumable? call id else none with
    | some (scripts, c) => c.steps scripts fuel m.world
    | none => replyTicks call id m m'
  | _ => replyTicks call id m m'

theorem ticksBy_cases (call id : Nat) (m : Machine) (e : Event) (m' : Machine) :
    (∃ fuel scripts c, e = .resumeChain fuel call id ∧ m.resumable? call id = some (scripts, c) ∧
        ticksBy call id m e m' = c.steps scripts fuel m.world) ∨
      (∀ fuel, e = .resumeChain fuel call id → m.resumable? call id = none) ∧
        ticksBy call id m e m' = replyTicks call id m m' := by
  cases e with
  | resumeChain fuel k i =>
    by_cases hi : k = call ∧ i = id
    · obtain ⟨rfl, rfl⟩ := hi
      simp only [ticksBy, and_self, if_true]
      cases hres : m.resumable? k i with
      | none => exact .inr ⟨fun _ _ => rfl, rfl⟩
      | some p => exact .inl ⟨fuel, p.1, p.2, rfl, rfl, rfl⟩
    · refine .inr ⟨?_, by rw [ticksBy, if_neg hi]⟩
      rintro fuel ⟨⟩
      exact absurd ⟨rfl, rfl⟩ hi
  | _ => exact .inr ⟨nofun, rfl⟩

theorem next?_ticks {m m' : Machine} (hm : m.Tidy) {e : Event} (h : m.next? e = some m')
    {call id : Nat} {c : Chain} (hc : m.chain? call id = some c) :
    m'.chain? call id = c.ticks (ticksBy call id m e m') := by
  rcases ticksBy_cases call id m e m' with ⟨fuel, scripts, d, rfl, hres, hticks⟩ | ⟨hidle, hticks⟩
  · cases h
    obtain ⟨rfl, hgo, r, hr, rfl, rfl, hmem⟩ := of_resumable? hres
    cases hc.symm.trans (chain?_of_mem hm hr hmem)
    rw [hticks, ← Chain.run_ticks]
    exact (resumeChain_of_mem hm hr hmem hgo fuel).2
  · have hsettled : ∃ asks text, m'.chain? call id = some (c.settled asks text) := by
      by_cases he : ∃ fuel, e = .resumeChain fuel call id
      · obtain ⟨fuel, rfl⟩ := he
        cases h
        have hrest : ∀ d ∈ m.chain? call id, d.canResume m.world = false := by
          rintro d hd
          obtain ⟨rfl, r, hr, rfl, hmem⟩ := (chain?_eq_some_iff hm).mp hd
          refine Bool.eq_false_iff.mpr fun hgo => ?_
          cases (hidle fuel rfl).symm.trans (resumable?_of_mem hm hr hmem hgo)
        rw [← chain?_asleep, resumeChain_idle hm hrest fuel, chain?_asleep, hc]
        exact ⟨[], "", rfl⟩
      · rw [← chain?_asleep] at hc ⊢
        have hother : ∀ fuel, e ≠ .resumeChain fuel call id := fun fuel hf => he ⟨fuel, hf⟩
        exact (next?_outcome hm h).chain?_settled (tidy_asleep.mpr hm) hc hother
    obtain ⟨asks, text, hc'⟩ := hsettled
    rw [hticks, replyTicks, hc, hc', Option.bind_some, Chain.settled_ticks]

theorem ticksBy_running {m : Machine} (hr : m.world.running = true) (call id : Nat) (e : Event)
    (m' : Machine) : ∀ t ∈ ticksBy call id m e m', t.running = true := by
  rcases ticksBy_cases call id m e m' with ⟨fuel, scripts, c, -, -, hticks⟩ | ⟨-, hticks⟩
  · rw [hticks]
    exact List.forall_mem_map.mpr (Chain.moments_running hr fuel)
  · rw [hticks]
    exact List.forall_mem_map.mpr fun p _ => rfl

/-- Whatever happens to a chain is made of ticks. -/
theorem after_ticks {m m' : Machine} (hm : m.Tidy) {call id : Nat} {c : Chain}
    (hc : m.chain? call id = some c) {es : List Event} (h : m.after es = some m') {d : Chain}
    (hd : c.ticks (m.gather (ticksBy call id) es) = some d) : m'.chain? call id = some d := by
  refine after_induction (P := fun es m' => ∀ d, c.ticks (m.gather (ticksBy call id) es) = some d →
    m'.chain? call id = some d) ?_ ?_ h d hd
  · rintro d ⟨⟩
    exact hc
  · intro es m₁ e m₂ hb ih he d hd
    rw [gather_snoc hb he, Chain.ticks_append] at hd
    obtain ⟨d₁, hd₁, hd⟩ := Option.bind_eq_some_iff.mp hd
    exact (next?_ticks (hm.after hb) he (ih d₁ hd₁)).trans hd

theorem gather_ticksBy_running {m m' : Machine} (h : m.Reachable) (hr : m.world.running = true)
    (call id : Nat) {es : List Event} (hes : m.after es = some m')
    (hgo : ∀ e ∈ es, e.isHalt = false) :
    ∀ t ∈ m.gather (ticksBy call id) es, t.running = true := by
  suffices hboth : m'.world.running = true ∧
      ∀ t ∈ m.gather (ticksBy call id) es, t.running = true from hboth.2
  refine after_induction (P := fun es m' => (∀ e ∈ es, e.isHalt = false) →
    m'.world.running = true ∧ ∀ t ∈ m.gather (ticksBy call id) es, t.running = true)
    (fun _ => ⟨hr, nofun⟩) ?_ hes hgo
  intro es m₁ e m₂ hb ih he hall
  rw [List.forall_mem_append, List.forall_mem_singleton] at hall
  obtain ⟨hrunning, hts⟩ := ih hall.1
  refine ⟨next?_running (h.after hb) hrunning hall.2 he, ?_⟩
  rw [gather_snoc hb he, List.forall_mem_append]
  exact ⟨hts, ticksBy_running hrunning call id e m₂⟩

end Machine

/-- A sequence under way: its chain, the number of frames outside of it, and the blocks that have
begun right inside them. -/
structure Sequence where
  chain : Chain
  level : Nat
  begun : List Block

namespace Sequence

def ofChain (c : Chain) : Sequence :=
  ⟨c, c.frames.length, []⟩

/-- Whether all is done inside the outer frames and `inner` more. -/
def isDone (inner : Nat) (s : Sequence) : Bool :=
  match s.chain.task with
  | .resume => s.chain.frames.length == s.level + inner
  | _ => false

/-- The sequence is over when all is done inside the outer frames. -/
def isOver (s : Sequence) : Bool :=
  s.isDone 0

/-- What happens to the chain later is no concern of a sequence that is over. -/
def tick (s : Sequence) (t : Tick) : Sequence :=
  if s.isOver then s
  else
    { s with
      chain := (s.chain.tick t).getD s.chain
      begun := s.begun ++
        if s.chain.frames.length = s.level then (s.chain.begun? t).toList else [] }

def after (s : Sequence) (ts : Nat → Tick) : Nat → Sequence
  | 0 => s
  | n + 1 => (s.after ts n).tick (ts n)

/-- The sequence after a list of ticks. -/
def follow (s : Sequence) (ts : List Tick) : Sequence :=
  ts.foldl tick s

/-- Every block that begins is done at some later time. -/
def Completes (s : Sequence) (ts : Nat → Tick) : Prop :=
  ∀ n, (s.after ts n).begun.length < (s.after ts (n + 1)).begun.length →
    ∃ k > n, (s.after ts k).isDone 1 = true

theorem isDone_iff {inner : Nat} {s : Sequence} :
    s.isDone inner = true ↔
      s.chain.task = .resume ∧ s.chain.frames.length = s.level + inner := by
  unfold isDone
  split
  · rename_i ht
    simp [ht]
  · rename_i ht
    exact ⟨nofun, fun h => absurd h.1 ht⟩

theorem isOver_iff {s : Sequence} :
    s.isOver = true ↔ s.chain.task = .resume ∧ s.chain.frames.length = s.level :=
  isDone_iff

theorem tick_level (s : Sequence) (t : Tick) : (s.tick t).level = s.level := by
  unfold tick
  split <;> rfl

theorem after_level (s : Sequence) (ts : Nat → Tick) (n : Nat) :
    (s.after ts n).level = s.level := by
  induction n with
  | zero => rfl
  | succ n ih => exact (tick_level _ _).trans ih

theorem tick_of_isOver {s : Sequence} (h : s.isOver = true) (t : Tick) : s.tick t = s := by
  rw [tick, if_pos h]

theorem follow_level (s : Sequence) (ts : List Tick) : (s.follow ts).level = s.level := by
  induction ts generalizing s with
  | nil => rfl
  | cons t ts ih => exact (ih (s.tick t)).trans (tick_level s t)

theorem follow_of_isOver {s : Sequence} (h : s.isOver = true) (ts : List Tick) :
    s.follow ts = s := by
  induction ts with
  | nil => rfl
  | cons t ts ih =>
    rw [follow, List.foldl_cons, tick_of_isOver h]
    exact ih

theorem tick_inside {s : Sequence} (h : s.level < s.chain.frames.length) {t : Tick} {d : Chain}
    (hd : s.chain.tick t = some d) : s.tick t = { s with chain := d } := by
  have hover : ¬ s.isOver = true := by
    rw [isOver_iff]
    omega
  have hlevel : s.chain.frames.length ≠ s.level := by omega
  rw [tick, if_neg hover, if_neg hlevel, hd, List.append_nil, Option.getD_some]

theorem begun_tick_inside {s : Sequence} (h : s.level < s.chain.frames.length) (t : Tick) :
    (s.tick t).begun = s.begun := by
  have hlevel : s.chain.frames.length ≠ s.level := by omega
  by_cases hover : s.isOver = true
  · rw [tick_of_isOver hover]
  · rw [tick, if_neg hover, if_neg hlevel, List.append_nil]

theorem begun_tick (s : Sequence) (t : Tick) : s.begun <+: (s.tick t).begun := by
  unfold tick
  split
  · exact List.prefix_refl _
  · exact List.prefix_append ..

theorem begun_after (s : Sequence) (ts : Nat → Tick) {n k : Nat} (h : n ≤ k) :
    (s.after ts n).begun <+: (s.after ts k).begun := by
  induction h with
  | refl => exact List.prefix_refl _
  | step h ih => exact ih.trans (begun_tick _ _)

/-- Where a sequence is that began with `first`: before a block, inside a block, or at its end. -/
inductive Course (blocks : List Block) (first : Block) (depth : Nat) (outer : List Frame)
    (s : Sequence) : Prop
  | before {b : Block} (hf : s.chain.frames = outer) (ht : s.chain.task = .block blocks b depth)
    (hb : Layout.Followed blocks first s.begun (some b))
  | inside {b : Block} {inner : List Frame}
    (hf : s.chain.frames = inner ++ .step blocks b depth :: outer)
    (ht : s.chain.task.isStart = false)
    (hb : Layout.Followed blocks first s.begun (Layout.successor blocks b))
  | atEnd (hf : s.chain.frames = outer) (ht : s.chain.task = .resume)
    (hb : Layout.Followed blocks first s.begun none)

section

variable {blocks : List Block} {first : Block} {depth : Nat} {outer : List Frame}

theorem Course.of_following {s : Sequence} {b : Block} (hf : s.chain.frames = outer)
    (ht : s.chain.task = .following blocks b depth)
    (hb : Layout.Followed blocks first s.begun (Layout.successor blocks b)) :
    s.Course blocks first depth outer := by
  unfold Task.following at ht
  cases hs : Layout.successor blocks b with
  | none =>
    rw [hs] at ht hb
    exact .atEnd hf ht hb
  | some next =>
    rw [hs] at ht hb
    exact .before hf ht hb

theorem not_isOver_of_block {s : Sequence} {b : Block}
    (ht : s.chain.task = .block blocks b depth) : ¬ s.isOver = true := by
  rw [isOver_iff, ht]
  rintro ⟨h, -⟩
  cases h

theorem tick_block {s : Sequence} {b : Block} (hl : s.chain.frames.length = s.level)
    (ht : s.chain.task = .block blocks b depth) (scripts : Table Script) {w : World}
    (hw : w.running = true) :
    (s.tick (.step scripts w)).begun = s.begun ++ [b] ∧
      ∃ inner, (s.tick (.step scripts w)).chain.frames =
          inner ++ .step blocks b depth :: s.chain.frames ∧
        (s.tick (.step scripts w)).chain.task.isStart = false := by
  obtain ⟨d, inner, hd, hf, hstart⟩ := Chain.step_block hw scripts ht
  have hrecord := (s.chain.step_depths scripts w).2
  rw [if_pos hw, Chain.begins, ht] at hrecord
  have hbegun : s.chain.begun? (.step scripts w) = some b := by
    rw [Chain.begun?, ht]
    exact if_pos hrecord
  rw [tick, if_neg (not_isOver_of_block ht), if_pos hl, Chain.tick, hd, hbegun]
  exact ⟨rfl, inner, hf, hstart⟩

theorem tick_reply {s : Sequence} (h : s.chain.ask? = none) (ask : Nat) (text : String) :
    s.tick (.reply ask text) = s := by
  unfold tick
  split
  · rfl
  · rw [Chain.tick_reply h]
    simp [Chain.begun?]

theorem Course.tick {s : Sequence} (h : s.Course blocks first depth outer)
    (hl : s.level = outer.length) {t : Tick} (hr : t.running = true) :
    (s.tick t).Course blocks first depth outer := by
  cases h with
  | atEnd hf ht hb =>
    have hover : s.isOver = true := isOver_iff.mpr ⟨ht, by rw [hf, hl]⟩
    rw [tick_of_isOver hover]
    exact .atEnd hf ht hb
  | @before b hf ht hb =>
    cases t with
    | reply ask text =>
      have hask : s.chain.ask? = none := by rw [Chain.ask?, ht]
      rw [tick_reply hask]
      exact .before hf ht hb
    | step scripts w =>
      obtain ⟨hbegun, inner, hframes, hstart⟩ := tick_block (by rw [hl, hf]) ht scripts hr
      rw [hf] at hframes
      refine .inside hframes hstart ?_
      rw [hbegun]
      exact hb.next
  | @inside b inner hf ht hb =>
    have hdeep : s.level < s.chain.frames.length := by
      rw [hl, hf, List.length_append, List.length_cons]
      omega
    have hmoved := Chain.tick_moved hr ht
    generalize hd : s.chain.tick t = d at hmoved
    cases hmoved with
    | ended hc =>
      rw [hc] at hdeep
      simp at hdeep
    | @deeper d more hframes hstart =>
      rw [tick_inside hdeep hd]
      rw [hf, ← List.append_assoc] at hframes
      exact .inside hframes hstart hb
    | @round d _ _ _ _ _ rest rounds hc hframes hstart =>
      rw [tick_inside hdeep hd]
      rw [hf] at hc
      cases inner with
      | nil => cases hc
      | cons f inner =>
        rw [List.cons_append] at hc
        obtain ⟨rfl, rfl⟩ := List.cons.inj hc
        rw [← List.append_assoc] at hframes
        exact .inside hframes hstart hb
    | @leaves d _ _ _ rest hc hframes htask =>
      rw [tick_inside hdeep hd]
      rw [hf] at hc
      cases inner with
      | nil =>
        -- The block that is left is the one of the sequence.
        cases hc
        exact .of_following hframes htask hb
      | cons f inner =>
        rw [List.cons_append] at hc
        obtain ⟨rfl, rfl⟩ := List.cons.inj hc
        refine .inside hframes ?_ hb
        rw [htask]
        exact Task.not_isStart_following ..

theorem Course.after {s : Sequence} (h : s.Course blocks first depth outer)
    (hl : s.level = outer.length) {ts : Nat → Tick} (hts : Lively ts) (n : Nat) :
    (s.after ts n).Course blocks first depth outer := by
  induction n with
  | zero => exact h
  | succ n ih => exact ih.tick ((s.after_level ts n).trans hl) (hts.running n)

/-- The chain of a sequence that is not over does not end. -/
theorem Course.tick_chain {s : Sequence} (h : s.Course blocks first depth outer)
    {t : Tick} (hr : t.running = true) (hover : ¬ s.isOver = true)
    (hl : s.level = outer.length) : s.chain.tick t = some (s.tick t).chain := by
  have hgoes : ∃ d, s.chain.tick t = some d := by
    cases h with
    | atEnd hf ht hb => exact absurd (isOver_iff.mpr ⟨ht, by rw [hf, hl]⟩) hover
    | before hf ht hb =>
      cases t with
      | reply ask text => exact ⟨_, rfl⟩
      | step scripts w =>
        obtain ⟨d, inner, hd, -, -⟩ := Chain.step_block hr scripts ht
        exact ⟨d, hd⟩
    | inside hf ht hb =>
      have hmoved := Chain.tick_moved hr ht
      generalize s.chain.tick t = d at hmoved
      cases hmoved with
      | ended hc => simp [hf] at hc
      | deeper | round | leaves => exact ⟨_, rfl⟩
  obtain ⟨d, hd⟩ := hgoes
  rw [Sequence.tick, if_neg hover, hd, Option.getD_some]

theorem Course.follow {s : Sequence} (h : s.Course blocks first depth outer)
    (hl : s.level = outer.length) {ts : List Tick} (hts : ∀ t ∈ ts, t.running = true) :
    (s.follow ts).Course blocks first depth outer ∧
      ((s.follow ts).isOver = false → s.chain.ticks ts = some (s.follow ts).chain) := by
  induction ts generalizing s with
  | nil => exact ⟨h, fun _ => rfl⟩
  | cons t ts ih =>
    rw [List.forall_mem_cons] at hts
    obtain ⟨hcourse, hchain⟩ := ih (h.tick hl hts.1) ((tick_level s t).trans hl) hts.2
    refine ⟨hcourse, fun hgoes => ?_⟩
    have hover : ¬ s.isOver = true := fun hover => by
      rw [follow_of_isOver hover, hover] at hgoes
      cases hgoes
    rw [Chain.ticks_cons, h.tick_chain hts.1 hover hl, Option.bind_some]
    exact hchain hgoes

theorem Course.task {s : Sequence} (h : s.Course blocks first depth outer)
    (hf : s.chain.frames.length = outer.length) :
    s.chain.task = .resume ∨ ∃ b, s.chain.task = .block blocks b depth := by
  cases h with
  | @before b hf ht hb => exact .inr ⟨b, ht⟩
  | inside hf' ht hb =>
    rw [hf', List.length_append, List.length_cons] at hf
    omega
  | atEnd hf ht hb => exact .inl ht

end

/-- Sooner or later there is a step from `time` on, and if no other tick matters to the sequence,
it is still where it was. -/
theorem exists_step {ts : Nat → Tick} (hts : Lively ts) (s : Sequence) (n time : Nat)
    (hstay : ∀ t : Tick, t.running = true → t.isStepFrom time = false →
      (s.after ts n).tick t = s.after ts n) :
    ∃ k ≥ n, ∃ scripts w, ts k = .step scripts w ∧ w.running = true ∧ time ≤ w.now ∧
      s.after ts k = s.after ts n := by
  classical
  -- Take the first such step, so that no tick before it matters.
  have hex := hts.lasting n time
  obtain ⟨hk, hstep⟩ := Nat.find_spec hex
  have hfirst : ∀ j, n ≤ j → j < Nat.find hex → (ts j).isStepFrom time = false := by
    intro j hj hlt
    have hmin := Nat.find_min hex hlt
    cases hs : (ts j).isStepFrom time with
    | false => rfl
    | true => exact absurd ⟨hj, hs⟩ hmin
  generalize Nat.find hex = k at hk hstep hfirst
  have hsame : ∀ j, n ≤ j → j ≤ k → s.after ts j = s.after ts n := by
    intro j hj
    induction hj with
    | refl => exact fun _ => rfl
    | @step j hj ih =>
      intro hlt
      have hstill := ih (by omega)
      rw [after, hstill]
      exact hstay _ (hts.running j) (hfirst j hj (by omega))
  refine ⟨k, hk, ?_⟩
  have hr := hts.running k
  cases ht : ts k with
  | reply ask text =>
    rw [ht] at hstep
    cases hstep
  | step scripts w =>
    rw [ht] at hstep hr
    exact ⟨scripts, w, rfl, hr, of_decide_eq_true hstep, hsame k hk (Nat.le_refl k)⟩

theorem tick_stays {s : Sequence} (h : s.level < s.chain.frames.length) {t : Tick}
    (ht : s.chain.tick t = some s.chain) : s.tick t = s :=
  tick_inside h ht

section

variable {blocks : List Block} {first b : Block} {depth : Nat} {outer : List Frame}
  {s : Sequence} {ts : Nat → Tick} {n : Nat}

/-- After `n` the sequence leaves the block `b` and begins no other block meanwhile. -/
def Leaves (blocks : List Block) (b : Block) (depth : Nat) (outer : List Frame) (s : Sequence)
    (ts : Nat → Tick) (n : Nat) : Prop :=
  ∃ k > n, (s.after ts k).begun = (s.after ts n).begun ∧ (s.after ts k).chain.frames = outer ∧
    (s.after ts k).chain.task = .following blocks b depth

theorem Leaves.of_inside {k : Nat} (h : s.Leaves blocks b depth outer ts k) (hk : n < k) {d : Chain}
    (he : s.after ts k = { s.after ts n with chain := d }) : s.Leaves blocks b depth outer ts n := by
  obtain ⟨j, hj, hbegun, hf, ht⟩ := h
  refine ⟨j, by omega, ?_, hf, ht⟩
  rw [hbegun, he]

theorem level_lt_of_frames (hl : s.level = outer.length)
    (hf : (s.after ts n).chain.frames = .step blocks b depth :: outer) :
    (s.after ts n).level < (s.after ts n).chain.frames.length := by
  rw [after_level, hf, hl, List.length_cons]
  omega

theorem leaves_of_wait (hts : Lively ts) (hl : s.level = outer.length)
    (hf : (s.after ts n).chain.frames = .step blocks b depth :: outer) {due : Nat}
    (ht : (s.after ts n).chain.task = .wait (.pause (some due) .step)) :
    s.Leaves blocks b depth outer ts n := by
  have hdeep := level_lt_of_frames hl hf
  have hstay : ∀ t : Tick, t.running = true → t.isStepFrom due = false →
      (s.after ts n).tick t = s.after ts n := by
    intro t hr hearly
    cases t with
    | reply ask text => exact tick_reply (by rw [Chain.ask?, ht]) ask text
    | step scripts w =>
      apply tick_stays hdeep
      rw [Chain.tick_wait hr hf ht, if_neg (of_decide_eq_false hearly)]
  obtain ⟨k, hk, scripts, w, hstep, hr, hnow, hsame⟩ := exists_step hts s n due hstay
  have hleft := Chain.tick_wait hr hf ht scripts
  rw [if_pos hnow] at hleft
  have hafter : s.after ts (k + 1) = (s.after ts n).tick (.step scripts w) := by
    rw [after, hstep, hsame]
  rw [tick_inside hdeep hleft] at hafter
  refine ⟨k + 1, by omega, ?_⟩
  rw [hafter]
  exact ⟨rfl, rfl, rfl⟩

/-- Whatever step comes next is the one that matters. -/
theorem exists_next_step (hts : Lively ts) (hask : (s.after ts n).chain.ask? = none) :
    ∃ k ≥ n, ∃ scripts w, w.running = true ∧ s.after ts k = s.after ts n ∧
      s.after ts (k + 1) = (s.after ts n).tick (.step scripts w) := by
  have hstay : ∀ t : Tick, t.running = true → t.isStepFrom 0 = false →
      (s.after ts n).tick t = s.after ts n := by
    intro t hr hearly
    cases t with
    | reply ask text => exact tick_reply hask ask text
    | step scripts w => simp [Tick.isStepFrom] at hearly
  obtain ⟨k, hk, scripts, w, hstep, hr, -, hsame⟩ := exists_step hts s n 0 hstay
  refine ⟨k, hk, scripts, w, hr, hsame, ?_⟩
  rw [after, hstep, hsame]

theorem leaves_of_pause (hts : Lively ts) (hl : s.level = outer.length)
    (hf : (s.after ts n).chain.frames = .step blocks b depth :: outer) {delay : Nat}
    (ht : (s.after ts n).chain.task = .pause (some delay) .step) :
    s.Leaves blocks b depth outer ts n := by
  have hdeep := level_lt_of_frames hl hf
  obtain ⟨k, hk, scripts, w, hr, -, hafter⟩ := exists_next_step hts (s := s) (n := n)
    (by rw [Chain.ask?, ht])
  rw [tick_inside hdeep (Chain.tick_pause hr hf ht scripts)] at hafter
  by_cases hd : delay = 0
  · rw [if_pos hd] at hafter
    refine ⟨k + 1, by omega, ?_⟩
    rw [hafter]
    exact ⟨rfl, rfl, rfl⟩
  · rw [if_neg hd] at hafter
    refine Leaves.of_inside (k := k + 1) ?_ (by omega) hafter
    exact leaves_of_wait hts hl (by rw [hafter]; exact hf) (by rw [hafter])

theorem leaves_of_done (hts : Lively ts) (hl : s.level = outer.length)
    (hf : (s.after ts n).chain.frames = .step blocks b depth :: outer)
    (ht : (s.after ts n).chain.task = .resume) : s.Leaves blocks b depth outer ts n := by
  have hdeep := level_lt_of_frames hl hf
  obtain ⟨k, hk, scripts, w, hr, -, hafter⟩ := exists_next_step hts (s := s) (n := n)
    (by rw [Chain.ask?, ht])
  rw [tick_inside hdeep (Chain.tick_done hf ht scripts w)] at hafter
  refine Leaves.of_inside (k := k + 1) ?_ (by omega) hafter
  exact leaves_of_pause hts hl (by rw [hafter]; exact hf) (by rw [hafter])

theorem Course.frames_of_isDone {s : Sequence} (h : s.Course blocks first depth outer)
    (hl : s.level = outer.length) (hd : s.isDone 1 = true) :
    ∃ b, s.chain.frames = .step blocks b depth :: outer := by
  obtain ⟨hresume, hlength⟩ := isDone_iff.mp hd
  cases h with
  | before hf ht hb =>
    rw [ht] at hresume
    cases hresume
  | @inside b inner hf ht hb =>
    rw [hf, hl, List.length_append, List.length_cons] at hlength
    have hnil : inner = [] := List.eq_nil_of_length_eq_zero (by omega)
    rw [hnil] at hf
    exact ⟨b, hf⟩
  | atEnd hf ht hb =>
    rw [hf, hl] at hlength
    omega

/-- A block that is next begins, and when it is done the sequence is before another block or at
its end. -/
theorem Course.lap (h : s.Course blocks first depth outer) (hl : s.level = outer.length)
    (hts : Lively ts) (hdone : s.Completes ts) (hf : (s.after ts n).chain.frames = outer)
    (ht : (s.after ts n).chain.task = .block blocks b depth) :
    ∃ k > n, (s.after ts n).begun.length < (s.after ts k).begun.length ∧
      (s.after ts k).chain.frames = outer := by
  obtain ⟨k, hk, scripts, w, hr, hsame, hafter⟩ := exists_next_step hts (s := s) (n := n)
    (by rw [Chain.ask?, ht])
  have hlevel : (s.after ts n).chain.frames.length = (s.after ts n).level := by
    rw [after_level, hf, hl]
  have hbegun := (tick_block hlevel ht scripts hr).1
  rw [← hafter] at hbegun
  have hmore : (s.after ts n).begun.length < (s.after ts (k + 1)).begun.length := by
    rw [hbegun, List.length_append, List.length_singleton]
    omega
  -- Which block is done at `j` does not matter: `b` has begun by then.
  obtain ⟨j, hj, hd⟩ := hdone k (by rw [hsame]; exact hmore)
  obtain ⟨c, hframes⟩ := (h.after hl hts j).frames_of_isDone ((s.after_level ts j).trans hl) hd
  obtain ⟨i, hi, hkept, hout, -⟩ := leaves_of_done hts hl hframes (isDone_iff.mp hd).1
  have hgrow := (s.begun_after ts (show k + 1 ≤ j by omega)).length_le
  refine ⟨i, by omega, ?_, hout⟩
  rw [hkept]
  omega

/-- The sequence ends, or it begins as many blocks as one likes. -/
theorem Course.laps (h : s.Course blocks first depth outer) (hl : s.level = outer.length)
    (hts : Lively ts) (hdone : s.Completes ts) (hf : s.chain.frames = outer) (count : Nat) :
    ∃ n, (s.after ts n).isOver = true ∨
      count ≤ (s.after ts n).begun.length ∧ (s.after ts n).chain.frames = outer := by
  induction count with
  | zero => exact ⟨0, .inr ⟨Nat.zero_le _, hf⟩⟩
  | succ count ih =>
    obtain ⟨n, hover | ⟨hcount, hframes⟩⟩ := ih
    · exact ⟨n, .inl hover⟩
    · have hlength : (s.after ts n).chain.frames.length = (s.after ts n).level := by
        rw [hframes, after_level, hl]
      rcases (h.after hl hts n).task (by rw [hframes]) with ht | ⟨b, ht⟩
      · exact ⟨n, .inl (isOver_iff.mpr ⟨ht, hlength⟩)⟩
      · obtain ⟨k, -, hmore, hout⟩ := h.lap hl hts hdone hframes ht
        exact ⟨k, .inr ⟨by omega, hout⟩⟩

theorem Course.followed_of_isOver (h : s.Course blocks first depth outer)
    (hl : s.level = outer.length) (hover : s.isOver = true) :
    Layout.Followed blocks first s.begun none := by
  obtain ⟨hresume, hlength⟩ := isOver_iff.mp hover
  cases h with
  | before hf ht hb =>
    rw [ht] at hresume
    cases hresume
  | inside hf ht hb =>
    rw [hf, hl, List.length_append, List.length_cons] at hlength
    omega
  | atEnd hf ht hb => exact hb

theorem Course.followed (h : s.Course blocks first depth outer) :
    ∃ b, Layout.Followed blocks first s.begun b := by
  cases h with
  | before hf ht hb => exact ⟨_, hb⟩
  | inside hf ht hb => exact ⟨_, hb⟩
  | atEnd hf ht hb => exact ⟨_, hb⟩

theorem Course.begun_of_ends (h : s.Course blocks first depth outer) (hfirst : first ∈ blocks)
    (hends : Layout.Ends blocks first) : s.begun <+: Layout.stack blocks first := by
  obtain ⟨b, hb⟩ := h.followed
  obtain ⟨rest, hrest, -⟩ := hb.of_ends hends hfirst
  exact ⟨rest, hrest.symm⟩

/-- A sequence that is over has begun the blocks of its stack, which ends. -/
theorem Course.begun_of_isOver (h : s.Course blocks first depth outer)
    (hl : s.level = outer.length) (hids : (blocks.map (·.id)).Nodup) (hfirst : first ∈ blocks)
    (hover : s.isOver = true) :
    Layout.Ends blocks first ∧ s.begun = Layout.stack blocks first := by
  have hfollowed := h.followed_of_isOver hl hover
  have hends : Layout.Ends blocks first := by
    by_contra hends
    obtain ⟨b, -, hb⟩ := hfollowed.of_not_ends hends hids hfirst
    cases hb
  obtain ⟨rest, hrest, hhead⟩ := hfollowed.of_ends hends hfirst
  rw [List.head?_eq_none_iff.mp hhead, List.append_nil] at hrest
  exact ⟨hends, hrest.symm⟩

/-- The blocks that do at once all that they do. -/
def IsPrompt (b : Block) : Prop :=
  ∀ (w : World) (scripts : Table Script) (sprite : String) (blocks : List Block) (depth : Nat)
    (arg : String → Value), (w.perform scripts sprite blocks b depth arg).2 = (none, .resume)

theorem Course.completes (h : s.Course blocks first depth outer) (hl : s.level = outer.length)
    (hts : Lively ts) (hfirst : first ∈ blocks) (hprompt : ∀ b ∈ blocks, IsPrompt b) :
    s.Completes ts := by
  intro n hmore
  refine ⟨n + 1, by omega, ?_⟩
  have hcourse := h.after hl hts n
  have hlevel := (s.after_level ts n).trans hl
  have hr := hts.running n
  rw [Sequence.after] at hmore ⊢
  generalize s.after ts n = s at hcourse hlevel hmore ⊢
  cases hcourse with
  | atEnd hf ht hb =>
    rw [tick_of_isOver (isOver_iff.mpr ⟨ht, by rw [hf, hlevel]⟩)] at hmore
    omega
  | inside hf ht hb =>
    have hdeep : s.level < s.chain.frames.length := by
      rw [hlevel, hf, List.length_append, List.length_cons]
      omega
    rw [begun_tick_inside hdeep] at hmore
    omega
  | @before b hf ht hb =>
    cases hstep : ts n with
    | reply ask text =>
      rw [hstep, tick_reply (by rw [Chain.ask?, ht])] at hmore
      omega
    | step scripts w =>
      rw [hstep] at hr
      have hw : w.running = true := hr
      rw [Sequence.tick, if_neg (not_isOver_of_block ht), isDone_iff]
      rw [Chain.tick, Chain.step_entered ht hw]
      have hp := hprompt b (hb.mem hfirst) (w.entered s.chain.sprite b depth) scripts
        s.chain.sprite blocks depth ((w.entered s.chain.sprite b depth).read s.chain.sprite b)
      generalize World.perform _ scripts s.chain.sprite blocks b depth _ = p at hp
      obtain ⟨w', frame, task⟩ := p
      cases hp
      refine ⟨rfl, ?_⟩
      simp [Chain.inside, hf, hlevel]

/-- A sequence that is never stopped and whose blocks complete begins the blocks of its stack, in
order and once each, and ends, if the last of them has no successor. Otherwise it never ends. Every
stack ends so as long as no block stands too far up or down. -/
theorem begins_stack_iff_ends {c : Chain} (hids : (blocks.map (·.id)).Nodup)
    (hfirst : first ∈ blocks) (hc : c.task = .block blocks first depth) (hts : Lively ts)
    (hdone : (ofChain c).Completes ts) :
    (Layout.Ends blocks first ↔ ∃ n, ((ofChain c).after ts n).isOver = true) ∧
      (∀ n, ((ofChain c).after ts n).isOver = true →
        ((ofChain c).after ts n).begun = Layout.stack blocks first) ∧
      (Layout.Ends blocks first → ∀ n,
        ((ofChain c).after ts n).begun <+: Layout.stack blocks first) ∧
      ((Layout.stack blocks first).map (·.id)).Nodup ∧
      (¬ Layout.Ends blocks first → ∀ count, ∃ n, count ≤ ((ofChain c).after ts n).begun.length) ∧
      ((∀ b ∈ blocks, b.position.y.abs ≤ Layout.farthest) → Layout.Ends blocks first) := by
  have hl : (ofChain c).level = c.frames.length := rfl
  have hstart : (ofChain c).Course blocks first depth c.frames := .before rfl hc .start
  have hover (n : Nat) (h : ((ofChain c).after ts n).isOver = true) :
      Layout.Ends blocks first ∧ ((ofChain c).after ts n).begun = Layout.stack blocks first :=
    (hstart.after hl hts n).begun_of_isOver (((ofChain c).after_level ts n).trans hl) hids hfirst h
  have hbegun (hends : Layout.Ends blocks first) (n : Nat) :
      ((ofChain c).after ts n).begun <+: Layout.stack blocks first :=
    (hstart.after hl hts n).begun_of_ends hfirst hends
  have hlaps := hstart.laps hl hts hdone rfl
  refine ⟨⟨fun hend => ?_, fun ⟨n, h⟩ => (hover n h).1⟩, fun n h => (hover n h).2, hbegun,
    Layout.stack_nodup hfirst, fun hend count => ?_, Layout.ends_of_le_farthest hids hfirst⟩
  · obtain ⟨n, hover | ⟨hcount, -⟩⟩ := hlaps ((Layout.stack blocks first).length + 1)
    · exact ⟨n, hover⟩
    · have hle := (hbegun hend n).length_le
      omega
  · obtain ⟨n, h | ⟨hcount, -⟩⟩ := hlaps count
    · exact absurd (hover n h).1 hend
    · exact ⟨n, hcount⟩

/-- As long as nothing is halted, a chain of a reachable machine that is about to run a sequence
begins the blocks of its stack, in order and once each, and it does not end before the sequence. -/
theorem reachable_begins_stack {m m' : Machine} (h : m.Reachable) (hr : m.world.running = true)
    {call id : Nat} {c : Chain} (hc : m.chain? call id = some c)
    (ht : c.task = .block blocks first depth) (hids : (blocks.map (·.id)).Nodup)
    (hfirst : first ∈ blocks) {es : List Event} (hes : m.after es = some m')
    (hgo : ∀ e ∈ es, e.isHalt = false) :
    let s := (ofChain c).follow (m.gather (Machine.ticksBy call id) es)
    (Layout.Ends blocks first → s.begun <+: Layout.stack blocks first) ∧
      (s.isOver = true → Layout.Ends blocks first ∧ s.begun = Layout.stack blocks first) ∧
      (s.isOver = false → m'.chain? call id = some s.chain) := by
  have hl : (ofChain c).level = c.frames.length := rfl
  have hstart : (ofChain c).Course blocks first depth c.frames := .before rfl ht .start
  obtain ⟨hcourse, hchain⟩ :=
    hstart.follow hl (Machine.gather_ticksBy_running h hr call id hes hgo)
  refine ⟨hcourse.begun_of_ends hfirst, ?_, fun hover => ?_⟩
  · exact hcourse.begun_of_isOver ((follow_level ..).trans hl) hids hfirst
  · exact Machine.after_ticks h.tidy hc hes (hchain hover)

end

/-- A step every 50 milliseconds, in a run that goes on. -/
def steady (n : Nat) : Tick :=
  .step [] { (Machine.create .empty {} {}).world with running := true, now := 50 * n }

theorem steady_lively : Lively steady := by
  refine ⟨fun n => rfl, fun n time => ⟨n + time, by omega, ?_⟩⟩
  simp only [steady, Tick.isStepFrom, decide_eq_true_eq]
  omega

def twoBlocks (y : Float) : List Block :=
  [.create "a" .hideSprite ⟨0, y⟩, .create "b" .showSprite ⟨0, y + 40⟩]

def overTwoBlocks (y : Float) : Sequence :=
  ofChain ⟨1, "sprite-1", [], .block (twoBlocks y) (.create "a" .hideSprite ⟨0, y⟩) 0⟩

theorem overTwoBlocks_completes (y : Float) : (overTwoBlocks y).Completes steady := by
  have hstart : (overTwoBlocks y).Course (twoBlocks y) (.create "a" .hideSprite ⟨0, y⟩) 0 [] :=
    .before rfl rfl .start
  refine hstart.completes rfl steady_lively List.mem_cons_self ?_
  simp only [twoBlocks, List.forall_mem_cons]
  exact ⟨fun _ _ _ _ _ _ => rfl, fun _ _ _ _ _ _ => rfl, nofun⟩

theorem begins_stack_iff_ends_two_blocks :
    Lively steady ∧ (overTwoBlocks 0).Completes steady ∧
      ∃ n, ((overTwoBlocks 0).after steady n).isOver = true ∧
        ((overTwoBlocks 0).after steady n).begun.map (·.id) = ["a", "b"] := by
  have hids : ((twoBlocks 0).map (·.id)).Nodup := by decide
  have hnear : ∀ b ∈ twoBlocks 0, b.position.y.abs ≤ Layout.farthest := by decide +kernel
  obtain ⟨hends, hbegun, -, -, -, hfar⟩ := begins_stack_iff_ends hids List.mem_cons_self rfl
    steady_lively (overTwoBlocks_completes 0)
  obtain ⟨n, hover⟩ := hends.mp (hfar hnear)
  refine ⟨steady_lively, overTwoBlocks_completes 0, n, hover, ?_⟩
  rw [overTwoBlocks, hbegun n hover]
  decide +kernel

/-- So far down that the height of a block is lost when it is added, a block is the successor of
its successor, and the sequence begins anew. -/
theorem far_sequence_begins_anew :
    Lively steady ∧ (overTwoBlocks 1e18).Completes steady ∧
      ((twoBlocks 1e18).map (·.id)).Nodup ∧
      (twoBlocks 1e18).all (fun b => b.position.x.isFinite && b.position.y.isFinite) = true ∧
      ¬ Layout.Ends (twoBlocks 1e18) (.create "a" .hideSprite ⟨0, 1e18⟩) ∧
      (Layout.stack (twoBlocks 1e18) (.create "a" .hideSprite ⟨0, 1e18⟩)).map (·.id) = ["a", "b"] ∧
      ((overTwoBlocks 1e18).after steady 9).begun.map (·.id) = ["a", "b", "a"] :=
  ⟨steady_lively, overTwoBlocks_completes 1e18, by decide, by decide +kernel, by decide +kernel,
    by decide +kernel, by decide +kernel⟩

end Sequence

end BlockScript

import BlockScript.Run.Session
import Mathlib

/-! What can happen to a machine, one event after the other and in any order: edits, commands of
the host, the clock, and what each run does in its turn. -/

namespace BlockScript

/-- An edit that needs the project to itself, so that no call may be pending. -/
inductive Project.Edit where
  | addSprite (costume : String)
  | deleteSprite (id : String)
  | editScript (sprite : String) (edit : Script → Except EditError (Script × Unit))
  | createVariable (name : String)
  | enableExtension (id : String)

def Project.edit? (p : Project) : Edit → Option Project
  | .addSprite costume => some (p.insertSprite costume).1
  | .deleteSprite id => (p.deleteSprite id).toOption
  | .editScript sprite edit => (p.editScript sprite edit).toOption.map Prod.fst
  | .createVariable name => (p.createVariable name).toOption.map Prod.fst
  | .enableExtension id => (p.enableExtension id).toOption

inductive Event where
  | edit (e : Project.Edit)
  | change (sprite : String) (f : Sprite → Sprite)
  | obey (c : Command)
  | rewind
  | advance (time : Nat)
  | fireTimers
  | beginRun (call : Nat)
  | handleTriggers (call : Nat)
  | resumeChain (fuel call id : Nat)
  | finish (call : Nat)

namespace Event

/-- Whether the event is the work of runs and of the clock, and not of the host. -/
def isInternal : Event → Bool
  | advance _ | fireTimers | beginRun _ | handleTriggers _ | resumeChain .. | finish _ => true
  | _ => false

/-- Whether the event is what a run does in its turn, in which a chain that goes on takes a step. -/
def isTurn : Event → Bool
  | beginRun _ | handleTriggers _ | finish _ => true
  | resumeChain fuel _ _ => fuel != 0
  | _ => false

/-- Whether the event happens within an instant of a session. -/
def isImmediate : Event → Bool
  | obey _ => true
  | e => e.isTurn

def command? : Event → Option Command
  | obey c => some c
  | _ => none

/-- Whether the event is a call that starts a run, unless one is going on. -/
def isCall : Event → Bool
  | obey .flag | obey (.click _) => true
  | _ => false

/-- Whether the event halts whatever is going on: a stop, or the end of a run. -/
def isHalt : Event → Bool
  | obey .stop | finish _ => true
  | _ => false

theorem isImmediate_of_isTurn {e : Event} (h : e.isTurn = true) : e.isImmediate = true := by
  cases e with
  | obey c => rfl
  | _ => exact h

theorem command?_of_isTurn {e : Event} (h : e.isTurn = true) : e.command? = none := by
  cases e with
  | obey c => cases h
  | _ => rfl

theorem isCall_of_isInternal {e : Event} (h : e.isInternal = true) : e.isCall = false := by
  cases e with
  | obey c => cases h
  | _ => rfl

end Event

namespace Run

def canBegin (w : World) (r : Run) : Bool :=
  match r.phase with
  | .starting due => w.running && due ≤ w.now
  | .going => false

/-- Whether the run has nothing left to do: it was stopped before it began, or no trigger waits
and no chain is left. -/
def isOver (w : World) (r : Run) : Bool :=
  match r.phase with
  | .starting _ => !w.running
  | .going => r.queue.isEmpty && r.chains.isEmpty

end Run

namespace Machine

def rewound (m : Machine) : Machine :=
  { m with world := { m.world with now := 0, log := #[] }, calls := 0, returned := [] }

/-- The machine after an event, if the event can happen. A command without fuel does only what
the host sees at once; what a new run does then are events of their own. -/
def next? (m : Machine) : Event → Option Machine
  | .edit e => if m.runs.isEmpty then (m.world.project.edit? e).map m.withProject else none
  | .change sprite f => (m.world.project.editSprite sprite f).toOption.map m.withProject
  | .obey c => some (m.obey 0 c).1
  | .rewind => if m.runs.isEmpty then some m.rewound else none
  | .advance time =>
    if m.world.now ≤ time then some (m.mapWorld fun w => { w with now := time }) else none
  | .fireTimers => some m.fireTimers
  | .beginRun call =>
    if (m.run? call).any (·.canBegin m.world) then some (m.beginRun call) else none
  | .handleTriggers call =>
    if (m.run? call).any (·.phase = .going) then some (m.handleTriggers call) else none
  | .resumeChain fuel call id => some (m.resumeChain fuel call id).1
  | .finish call => if (m.run? call).any (·.isOver m.world) then some (m.finish call) else none

def after (m : Machine) (es : List Event) : Option Machine :=
  es.foldlM next? m

/-- All that `f` sees in a list of events, where `f` looks at each event and at the machine before
and after it. -/
def gather {α : Type} (f : Machine → Event → Machine → List α) : Machine → List Event → List α
  | _, [] => []
  | m, e :: es =>
    match m.next? e with
    | some m' => f m e m' ++ gather f m' es
    | none => []

theorem after_append_iff {m m'' : Machine} {es es' : List Event} :
    m.after (es ++ es') = some m'' ↔ ∃ m', m.after es = some m' ∧ m'.after es' = some m'' := by
  simp only [after, List.foldlM_append]
  exact Option.bind_eq_some_iff

theorem after_cons_iff {m m'' : Machine} {e : Event} {es : List Event} :
    m.after (e :: es) = some m'' ↔ ∃ m', m.next? e = some m' ∧ m'.after es = some m'' := by
  simp only [after, List.foldlM_cons]
  exact Option.bind_eq_some_iff

theorem after_later {m m₀ m₁ m' : Machine} {before later : List Event} {e : Event}
    (h : m.after (before ++ e :: later) = some m') (hb : m.after before = some m₀)
    (he : m₀.next? e = some m₁) : m₁.after later = some m' := by
  obtain ⟨m₂, hb', h⟩ := after_append_iff.mp h
  cases hb.symm.trans hb'
  obtain ⟨m₂, he', h⟩ := after_cons_iff.mp h
  cases he.symm.trans he'
  exact h

theorem after_snoc_iff {m m'' : Machine} {es : List Event} {e : Event} :
    m.after (es ++ [e]) = some m'' ↔ ∃ m', m.after es = some m' ∧ m'.next? e = some m'' := by
  rw [after_append_iff]
  simp [after]

theorem after_induction {m : Machine} {P : List Event → Machine → Prop} (first : P [] m)
    (step : ∀ es m' e m'', m.after es = some m' → P es m' → m'.next? e = some m'' →
      P (es ++ [e]) m'') {es : List Event} {m' : Machine} (h : m.after es = some m') : P es m' := by
  induction es using List.reverseRecOn generalizing m' with
  | nil =>
    cases h
    exact first
  | append_singleton es e ih =>
    obtain ⟨m₁, h₁, he⟩ := after_snoc_iff.mp h
    exact step es m₁ e m' h₁ (ih h₁) he

theorem gather_cons {α : Type} {f : Machine → Event → Machine → List α} {m m' : Machine} {e : Event}
    (he : m.next? e = some m') (es : List Event) :
    m.gather f (e :: es) = f m e m' ++ m'.gather f es := by
  rw [gather, he]

theorem gather_append {α : Type} {f : Machine → Event → Machine → List α} {m m' : Machine}
    {es : List Event} (h : m.after es = some m') (es' : List Event) :
    m.gather f (es ++ es') = m.gather f es ++ m'.gather f es' := by
  induction es generalizing m with
  | nil =>
    cases h
    rfl
  | cons e es ih =>
    obtain ⟨m₁, he, h₁⟩ := after_cons_iff.mp h
    rw [List.cons_append, gather_cons he, gather_cons he, ih h₁, List.append_assoc]

theorem gather_snoc {α : Type} {f : Machine → Event → Machine → List α} {m m' m'' : Machine}
    {es : List Event} {e : Event} (h : m.after es = some m') (he : m'.next? e = some m'') :
    m.gather f (es ++ [e]) = m.gather f es ++ f m' e m'' := by
  rw [gather_append h, gather_cons he, gather, List.append_nil]

theorem gather_later {α : Type} {f : Machine → Event → Machine → List α} {m m₀ m₁ : Machine}
    {before later : List Event} {e : Event} (h : m.gather f (before ++ e :: later) = [])
    (hb : m.after before = some m₀) (he : m₀.next? e = some m₁) :
    f m₀ e m₁ = [] ∧ m₁.gather f later = [] := by
  rw [gather_append hb, gather_cons he, List.append_eq_nil_iff, List.append_eq_nil_iff] at h
  exact h.2

theorem gather_eq_nil {α : Type} {f : Machine → Event → Machine → List α} {es : List Event}
    (h : ∀ e ∈ es, ∀ m m', f m e m' = []) (m : Machine) : m.gather f es = [] := by
  induction es generalizing m with
  | nil => rfl
  | cons e es ih =>
    rw [List.forall_mem_cons] at h
    cases he : m.next? e with
    | none => simp only [gather, he]
    | some m' => simp only [gather, he, h.1, ih h.2, List.append_nil]

theorem gather_eq_nil_mono {α β : Type} {f : Machine → Event → Machine → List α}
    {g : Machine → Event → Machine → List β} (hg : ∀ m e m', f m e m' = [] → g m e m' = [])
    {es : List Event} {m : Machine} (h : m.gather f es = []) : m.gather g es = [] := by
  induction es generalizing m with
  | nil => rfl
  | cons e es ih =>
    cases he : m.next? e with
    | none => simp only [gather, he]
    | some m' =>
      rw [gather_cons he, List.append_eq_nil_iff] at h
      rw [gather_cons he, hg m e m' h.1, ih h.2, List.append_nil]

/-- A machine that has come about by events, from an empty project on. -/
def Reachable (m : Machine) : Prop :=
  ∃ options services es, (create .empty options services).after es = some m

theorem Reachable.after {m m' : Machine} {es : List Event} (h : m.Reachable)
    (he : m.after es = some m') : m'.Reachable := by
  obtain ⟨options, services, before, hb⟩ := h
  exact ⟨options, services, before ++ es, after_append_iff.mpr ⟨m, hb, he⟩⟩

theorem Reachable.next {m m' : Machine} {e : Event} (h : m.Reachable) (he : m.next? e = some m') :
    m'.Reachable := by
  have hone : m.after [e] = some m' := after_cons_iff.mpr ⟨m', he, rfl⟩
  exact h.after hone

theorem Reachable.rewound {m : Machine} (h : m.Reachable) (hr : m.runs = []) :
    m.rewound.Reachable :=
  h.next (e := .rewind) (if_pos (List.isEmpty_iff.mpr hr))

end Machine

end BlockScript

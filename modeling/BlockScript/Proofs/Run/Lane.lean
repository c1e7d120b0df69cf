import BlockScript.Proofs.Run.Deed
import BlockScript.Run.Schedule

/-! The runs of a machine without the order in which their chains take turns, and what each
operation of the machine does to them. -/

namespace BlockScript

theorem key_ne_of_nodup {α : Type} {l₁ l₂ : List α} {a : α} (key : α → Nat)
    (h : ((l₁ ++ a :: l₂).map key).Nodup) : ∀ b ∈ l₁ ++ l₂, key b ≠ key a := by
  rw [List.map_append, List.map_cons, List.nodup_middle, List.nodup_cons, ← List.map_append] at h
  intro b hb he
  exact h.1 (he ▸ List.mem_map_of_mem hb)

theorem filter_key_of_nodup {α : Type} {l₁ l₂ : List α} {a : α} (key : α → Nat)
    (h : ((l₁ ++ a :: l₂).map key).Nodup) :
    (l₁ ++ a :: l₂).filter (fun b => key b != key a) = l₁ ++ l₂ := by
  have hb := key_ne_of_nodup key h
  rw [List.filter_append, List.filter_cons_of_neg (by simp), ← List.filter_append,
    List.filter_eq_self]
  simpa using hb

theorem find?_key_of_nodup {α : Type} {l₁ l₂ : List α} {a : α} (key : α → Nat)
    (h : ((l₁ ++ a :: l₂).map key).Nodup) :
    (l₁ ++ a :: l₂).find? (fun b => key b == key a) = some a := by
  have hne := key_ne_of_nodup key h
  rw [List.find?_append, List.find?_eq_none.mpr, Option.none_or, List.find?_cons_of_pos]
  · exact beq_self_eq_true _
  · intro b hb
    simpa using hne b (List.mem_append_left _ hb)

theorem perm_insert {α : Type} (l₁ l l₂ new : List α) :
    (l₁ ++ (l ++ new ++ l₂)).Perm (new ++ (l₁ ++ (l ++ l₂))) := by
  rw [List.append_assoc, ← List.append_assoc l₁, ← List.append_assoc l₁]
  exact List.perm_append_comm_assoc ..

def Run.asleep (r : Run) : Run :=
  { r with ready := [] }

/-- The run with the triggers `sent`, if they were sent to it. -/
def Run.taking (sender : Option Nat) (sent : List Trigger) (r : Run) : Run :=
  { r with queue := if sender = some r.call then r.queue ++ sent else r.queue }

theorem Run.taking_of_eq {sender : Option Nat} {r : Run} (h : sender = some r.call)
    (sent : List Trigger) : r.taking sender sent = { r with queue := r.queue ++ sent } := by
  rw [taking, if_pos h]

theorem Run.taking_of_ne {sender : Option Nat} {r : Run} (h : sender ≠ some r.call)
    (sent : List Trigger) : r.taking sender sent = r := by
  rw [taking, if_neg h]

namespace Chain

/-- The chain after each ask of `asks` got the empty answer. -/
def silenced (asks : List Nat) (c : Chain) : Chain :=
  asks.foldl (fun c ask => c.receive ask "") c

/-- The chains of the hats, numbered from `last + 1` on. -/
def ofHats (last : Nat) : List (String × Script × Block) → List Chain
  | [] => []
  | (sprite, script, hat) :: hats =>
    ⟨last + 1, sprite, [], .start script.blocks hat⟩ :: ofHats (last + 1) hats

theorem id_of_mem_ofHats {last : Nat} {hats : List (String × Script × Block)} {c : Chain}
    (h : c ∈ ofHats last hats) : last < c.id ∧ c.id ≤ last + hats.length := by
  induction hats generalizing last with
  | nil => cases h
  | cons hat hats ih =>
    simp only [ofHats, List.mem_cons] at h
    simp only [List.length_cons]
    rcases h with rfl | h
    · simp only
      omega
    · have := ih h
      omega

theorem nodup_ofHats (last : Nat) (hats : List (String × Script × Block)) :
    ((ofHats last hats).map (·.id)).Nodup := by
  induction hats generalizing last with
  | nil => simp [ofHats]
  | cons hat hats ih =>
    simp only [ofHats, List.map_cons, List.nodup_cons]
    refine ⟨fun h => ?_, ih (last + 1)⟩
    obtain ⟨c, hc, he⟩ := List.mem_map.mp h
    have := (id_of_mem_ofHats hc).1
    omega

theorem start_of_mem_ofHats {last : Nat} {hats : List (String × Script × Block)} {c : Chain}
    (h : c ∈ ofHats last hats) : c.frames = [] ∧ ∃ blocks hat, c.task = .start blocks hat := by
  induction hats generalizing last with
  | nil => cases h
  | cons hat hats ih =>
    simp only [ofHats, List.mem_cons] at h
    rcases h with rfl | h
    · exact ⟨rfl, _, _, rfl⟩
    · exact ih h

theorem ofHats_append (last : Nat) (hats more : List (String × Script × Block)) :
    ofHats last (hats ++ more) = ofHats last hats ++ ofHats (last + hats.length) more := by
  induction hats generalizing last with
  | nil => rfl
  | cons hat hats ih =>
    simp only [List.cons_append, ofHats, ih, List.length_cons]
    rw [Nat.add_assoc, Nat.add_comm 1]

theorem length_ofHats (last : Nat) (hats : List (String × Script × Block)) :
    (ofHats last hats).length = hats.length := by
  induction hats generalizing last with
  | nil => rfl
  | cons hat hats ih => simp only [ofHats, List.length_cons, ih]

theorem ofHats_cons (last : Nat) (hat : String × Script × Block)
    (hats : List (String × Script × Block)) :
    ofHats last (hat :: hats) = ofHats last [hat] ++ ofHats (last + 1) hats :=
  rfl

end Chain

def Run.silenced (asks : List Nat) (r : Run) : Run :=
  { r with chains := r.chains.map (Chain.silenced asks) }

theorem Run.silenced_nil (r : Run) : r.silenced [] = r := by
  have hc : r.chains.map (Chain.silenced []) = r.chains := List.map_id _
  rw [silenced, hc]

theorem Run.silenced_silenced (r : Run) (asks more : List Nat) :
    (r.silenced asks).silenced more = r.silenced (asks ++ more) := by
  have hc : Chain.silenced more ∘ Chain.silenced asks = Chain.silenced (asks ++ more) :=
    funext fun c => (List.foldl_append ..).symm
  simp only [silenced, List.map_map, hc]

def Run.withHats (last : Nat) (hats : List (String × Script × Block)) (r : Run) : Run :=
  { r with chains := r.chains ++ Chain.ofHats last hats }

def World.withStarts (hats : List (String × Script × Block)) (w : World) : World :=
  { w with
    log := hats.foldl (fun log hat => log.push (w.now, .chainStarted hat.2.2.id hat.1)) w.log }

def World.halted (w : World) : World :=
  ({ w with running := false, asks := [] }.mapStage fun s =>
    { s.clearSpeech with prompts := [] }).stopSounds

namespace World

variable (w : World)

theorem halted_eq : ∃ log, w.halted =
    { w with
      project := { w.project with stage := { w.stage.clearSpeech with prompts := [] } }
      running := false
      asks := []
      generation := w.generation + 1
      log := log } :=
  stopSounds_eq _

@[simp] theorem halted_state : w.halted.state = w.state := by
  obtain ⟨log, h⟩ := w.halted_eq
  rw [h]

@[simp] theorem halted_running : w.halted.running = false := by
  obtain ⟨log, h⟩ := w.halted_eq
  rw [h]

@[simp] theorem halted_asks : w.halted.asks = [] := by
  obtain ⟨log, h⟩ := w.halted_eq
  rw [h]

@[simp] theorem halted_lastAsk : w.halted.lastAsk = w.lastAsk := by
  obtain ⟨log, h⟩ := w.halted_eq
  rw [h]

@[simp] theorem halted_sender : w.halted.sender = w.sender := by
  obtain ⟨log, h⟩ := w.halted_eq
  rw [h]

@[simp] theorem halted_sent : w.halted.sent = w.sent := by
  obtain ⟨log, h⟩ := w.halted_eq
  rw [h]

@[simp] theorem halted_stage : w.halted.stage = { w.stage.clearSpeech with prompts := [] } := by
  obtain ⟨log, h⟩ := w.halted_eq
  rw [h]
  rfl

end World

namespace Machine

def lanes (m : Machine) : List Run :=
  m.runs.map Run.asleep

/-- The machine without the order of turns and without the calls that have returned. -/
def asleep (m : Machine) : Machine :=
  { m with runs := m.lanes, returned := [] }

def chains (m : Machine) : List Chain :=
  m.runs.flatMap (·.chains)

theorem chains_asleep (m : Machine) : m.asleep.chains = m.chains := by
  simp only [chains, asleep, lanes, List.flatMap_map]
  rfl

theorem chains_map {f : Run → Run} {g : Chain → Chain} (h : ∀ r, (f r).chains = r.chains.map g)
    (R : List Run) : (R.map f).flatMap (·.chains) = (R.flatMap (·.chains)).map g := by
  rw [List.flatMap_map, List.map_flatMap]
  exact congrArg (R.flatMap ·) (funext h)

theorem chains_taking (sender : Option Nat) (sent : List Trigger) (R : List Run) :
    (R.map (·.taking sender sent)).flatMap (·.chains) = R.flatMap (·.chains) := by
  rw [List.flatMap_map]
  rfl

theorem chains_withHats {R₁ R₂ : List Run} {r r' : Run} {last : Nat}
    {hats : List (String × Script × Block)} (h : r'.chains = r.chains) :
    ((R₁ ++ r'.withHats last hats :: R₂).flatMap (·.chains)).Perm
      (Chain.ofHats last hats ++ (R₁ ++ r :: R₂).flatMap (·.chains)) := by
  simp only [List.flatMap_append, List.flatMap_cons, Run.withHats, h]
  exact perm_insert ..

theorem chains_putBack (R₁ R₂ : List Run) {r : Run} {l₁ l₂ : List Chain} {c : Chain}
    (hl : r.chains = l₁ ++ c :: l₂) :
    ∃ rest, ((R₁ ++ r :: R₂).flatMap (·.chains)).Perm (c :: rest) ∧
      ∀ c' : Option Chain,
        ((R₁ ++ { r with chains := l₁ ++ l₂ ++ c'.toList } :: R₂).flatMap (·.chains)).Perm
          (c'.toList ++ rest) := by
  refine ⟨(R₁ ++ { r with chains := l₁ ++ l₂ } :: R₂).flatMap (·.chains), ?_, fun c' => ?_⟩
  · simp only [List.flatMap_append, List.flatMap_cons, hl]
    have hmid : (l₁ ++ c :: l₂).Perm (l₁ ++ l₂ ++ [c]) :=
      List.perm_middle.trans (List.perm_append_singleton c _).symm
    exact ((hmid.append_right _).append_left _).trans (perm_insert ..)
  · simp only [List.flatMap_append, List.flatMap_cons]
    exact perm_insert ..

theorem calls_eq (m : Machine) : m.runs.map (·.call) = m.lanes.map (·.call) := by
  simp only [lanes, List.map_map]
  rfl

theorem calls_sublist {f : Run → Run} (R : List Run) (h : ∀ r, (f r).call = r.call) :
    ((R.map f).map (·.call)).Sublist (R.map (·.call)) := by
  simp only [List.map_map, Function.comp_def, h]
  exact .refl _

theorem lanes_mapRuns (m : Machine) {f g : Run → Run} (h : ∀ r, (f r).asleep = g r.asleep) :
    (m.mapRuns f).lanes = m.lanes.map g := by
  simp only [lanes, mapRuns, List.map_map]
  exact List.map_congr_left fun r _ => h r

theorem asleep_mapWorld (m : Machine) (f : World → World) :
    (m.mapWorld f).asleep = m.asleep.mapWorld f :=
  rfl

theorem asleep_mapRuns (m : Machine) {f g : Run → Run} (h : ∀ r, (f r).asleep = g r.asleep) :
    (m.mapRuns f).asleep = m.asleep.mapRuns g := by
  simp only [asleep, m.lanes_mapRuns h]
  rfl

theorem asleep_mapRuns_same (m : Machine) {f : Run → Run} (h : ∀ r, (f r).asleep = r.asleep) :
    (m.mapRuns f).asleep = m.asleep := by
  rw [m.asleep_mapRuns (g := id) h, mapRuns, List.map_id]

theorem asleep_wake (m : Machine) (which : Chain → Bool) :
    (m.mapRuns (·.wake which)).asleep = m.asleep :=
  m.asleep_mapRuns_same fun _ => rfl

theorem mapRun_lanes {m : Machine} {R₁ R₂ : List Run} {r : Run} {f g : Run → Run}
    (hn : (m.lanes.map (·.call)).Nodup) (h : m.lanes = R₁ ++ r :: R₂)
    (hf : ∀ s, (f s).asleep = g s.asleep) : (m.mapRun r.call f).lanes = R₁ ++ g r :: R₂ := by
  have hm : (m.mapRun r.call f).lanes =
      m.lanes.map fun s => if s.call = r.call then g s else s := by
    apply lanes_mapRuns
    intro s
    by_cases hs : s.call = r.call
    · simp only [hs, if_true, hf]
      exact (if_pos hs).symm
    · simp only [hs, if_false]
      exact (if_neg hs).symm
  rw [hm, h]
  rw [h] at hn
  have hr := key_ne_of_nodup Run.call hn
  have hsame (R : List Run) (hR : ∀ s ∈ R, s.call ≠ r.call) :
      R.map (fun s => if s.call = r.call then g s else s) = R := by
    conv_rhs => rw [← List.map_id R]
    exact List.map_congr_left fun s hs => if_neg (hR s hs)
  rw [List.map_append, List.map_cons, if_pos rfl,
    hsame R₁ fun s hs => hr s (List.mem_append_left _ hs),
    hsame R₂ fun s hs => hr s (List.mem_append_right _ hs)]

theorem run?_split {m : Machine} {call : Nat} {r : Run} (h : m.run? call = some r) :
    r.call = call ∧ ∃ R₁ R₂, m.lanes = R₁ ++ r.asleep :: R₂ := by
  obtain ⟨hc, R₁, R₂, hr, -⟩ := List.find?_eq_some_iff_append.mp h
  refine ⟨by simpa using hc, R₁.map Run.asleep, R₂.map Run.asleep, ?_⟩
  rw [lanes, hr, List.map_append, List.map_cons]

theorem run?_of_split {m : Machine} {R₁ R₂ : List Run} {r : Run}
    (hn : (m.lanes.map (·.call)).Nodup) (h : m.lanes = R₁ ++ r :: R₂) :
    ∃ s, m.run? r.call = some s ∧ s.asleep = r := by
  have hr : r ∈ m.lanes := by simp [h]
  obtain ⟨s, hs, rfl⟩ := List.mem_map.mp hr
  refine ⟨s, ?_, rfl⟩
  rw [← calls_eq] at hn
  obtain ⟨S₁, S₂, hS⟩ := List.append_of_mem hs
  rw [hS] at hn
  rw [run?, hS]
  exact find?_key_of_nodup Run.call hn

theorem startChain_lanes {m : Machine} {R₁ R₂ : List Run} {r : Run}
    (hn : (m.lanes.map (·.call)).Nodup) (h : m.lanes = R₁ ++ r :: R₂)
    (hat : String × Script × Block) :
    (startChain r.call m hat).lanes =
      R₁ ++ r.withHats m.lastChain [hat] :: R₂ := by
  obtain ⟨sprite, script, hat⟩ := hat
  let noted := m.mapWorld (·.note (.chainStarted hat.id sprite))
  let g : Run → Run := fun s =>
    { s with chains := s.chains ++ [⟨m.lastChain + 1, sprite, [], .start script.blocks hat⟩] }
  exact mapRun_lanes (m := noted) (g := g) hn h fun s => rfl

theorem nodup_middle {m : Machine} {R₁ R₂ : List Run} {r s : Run}
    (hn : (m.lanes.map (·.call)).Nodup) (h : m.lanes = R₁ ++ r :: R₂) (hs : s.call = r.call) :
    ((R₁ ++ s :: R₂).map (·.call)).Nodup := by
  rw [h] at hn
  simpa [hs] using hn

theorem foldl_startChain (hats : List (String × Script × Block)) {m : Machine} {R₁ R₂ : List Run}
    {r : Run} (hn : (m.lanes.map (·.call)).Nodup) (h : m.lanes = R₁ ++ r :: R₂) :
    (hats.foldl (startChain r.call) m).asleep =
      { m.asleep with
        world := m.world.withStarts hats
        runs := R₁ ++ r.withHats m.lastChain hats :: R₂
        lastChain := m.lastChain + hats.length } := by
  induction hats generalizing m r with
  | nil =>
    rw [Run.withHats, Chain.ofHats, List.append_nil, ← h]
    rfl
  | cons hat hats ih =>
    have h₁ := startChain_lanes hn h hat
    have hn₁ : ((startChain r.call m hat).lanes.map (·.call)).Nodup := by
      rw [h₁]
      exact nodup_middle hn h rfl
    rw [Run.withHats, Chain.ofHats_cons, ← List.append_assoc, List.length_cons,
      Nat.add_comm hats.length, ← Nat.add_assoc]
    exact ih hn₁ h₁

theorem spawn_eq {m : Machine} {R₁ R₂ : List Run} {r : Run}
    (hn : (m.lanes.map (·.call)).Nodup) (h : m.lanes = R₁ ++ r :: R₂) (t : Trigger) :
    m.spawn r.call t = (t.hats r.scripts).foldl (startChain r.call) m := by
  obtain ⟨s, hs, rfl⟩ := run?_of_split hn h
  simp only [spawn, hs]
  rfl

theorem foldl_spawn (ts : List Trigger) {m : Machine} {R₁ R₂ : List Run} {r : Run}
    (hn : (m.lanes.map (·.call)).Nodup) (h : m.lanes = R₁ ++ r :: R₂) :
    ts.foldl (fun m t => m.spawn r.call t) m =
      (ts.flatMap (·.hats r.scripts)).foldl (startChain r.call) m := by
  induction ts generalizing m r with
  | nil => rfl
  | cons t ts ih =>
    rw [List.foldl_cons, spawn_eq hn h, List.flatMap_cons, List.foldl_append]
    have hr := congrArg runs (foldl_startChain (t.hats r.scripts) hn h)
    refine ih (r := r.withHats m.lastChain (t.hats r.scripts)) ?_ hr
    change ((asleep _).runs.map (·.call)).Nodup
    rw [hr]
    exact nodup_middle hn h rfl

theorem beginRun_asleep {m : Machine} {R₁ R₂ : List Run} {r : Run}
    (hn : (m.lanes.map (·.call)).Nodup) (h : m.lanes = R₁ ++ r :: R₂) :
    (m.beginRun r.call).asleep =
      { m.asleep with
        world := m.world.withStarts (r.first.hats r.scripts)
        runs := R₁ ++
          { r with phase := .going }.withHats m.lastChain (r.first.hats r.scripts) :: R₂
        lastChain := m.lastChain + (r.first.hats r.scripts).length } := by
  obtain ⟨s, hs, rfl⟩ := run?_of_split hn h
  let going : Run → Run := fun r => { r with phase := .going }
  have h₁ : (m.mapRun s.call going).lanes = R₁ ++ going s.asleep :: R₂ :=
    mapRun_lanes hn h fun s => rfl
  have hn₁ : ((m.mapRun s.call going).lanes.map (·.call)).Nodup := by
    rw [h₁]
    exact nodup_middle hn h rfl
  have hb : m.beginRun s.call =
      (s.first.hats s.scripts).foldl (startChain s.call) (m.mapRun s.call going) := by
    rw [beginRun, show m.run? s.call = some s from hs]
    exact spawn_eq hn₁ h₁ s.first
  change (m.beginRun s.call).asleep = _
  rw [hb]
  exact foldl_startChain (s.first.hats s.scripts) hn₁ h₁

theorem handleTriggers_asleep {m : Machine} {R₁ R₂ : List Run} {r : Run}
    (hn : (m.lanes.map (·.call)).Nodup) (h : m.lanes = R₁ ++ r :: R₂) :
    let hats := if m.world.running then r.queue.flatMap (·.hats r.scripts) else []
    (m.handleTriggers r.call).asleep =
      { m.asleep with
        world := m.world.withStarts hats
        runs := R₁ ++ { r with queue := [] }.withHats m.lastChain hats :: R₂
        lastChain := m.lastChain + hats.length } := by
  obtain ⟨s, hs, rfl⟩ := run?_of_split hn h
  let emptied : Run → Run := fun r => { r with queue := [] }
  have h₁ : (m.mapRun s.call emptied).lanes = R₁ ++ emptied s.asleep :: R₂ :=
    mapRun_lanes hn h fun s => rfl
  have hn₁ : ((m.mapRun s.call emptied).lanes.map (·.call)).Nodup := by
    rw [h₁]
    exact nodup_middle hn h rfl
  intro hats
  have hh : m.handleTriggers s.call =
      hats.foldl (startChain s.call) (m.mapRun s.call emptied) := by
    rw [handleTriggers, show m.run? s.call = some s from hs]
    by_cases hw : m.world.running = true
    · simp only [hats, if_pos hw]
      exact (if_pos hw).trans (foldl_spawn (r := emptied s.asleep) s.queue hn₁ h₁)
    · simp only [hats, if_neg hw]
      exact if_neg hw
  change (m.handleTriggers s.call).asleep = _
  rw [hh]
  exact foldl_startChain hats hn₁ h₁

theorem deliver_asleep (m : Machine) :
    m.deliver.asleep =
      (m.asleep.mapRuns (·.taking m.world.sender m.world.sent)).mapWorld
        fun w => { w with sent := [] } := by
  rw [deliver]
  cases hs : m.world.sender with
  | some call =>
    simp only
    rw [asleep_wake, asleep_mapWorld]
    congr 1
    apply asleep_mapRuns
    intro r
    by_cases hr : r.call = call
    · have hc : some call = some r.asleep.call := congrArg some hr.symm
      rw [if_pos hr, Run.taking_of_eq hc]
      rfl
    · have hc : some call ≠ some r.asleep.call := fun he => hr (Option.some.inj he).symm
      rw [if_neg hr, Run.taking_of_ne hc]
  | none =>
    simp only
    rw [asleep_wake, asleep_mapWorld]
    congr 1
    rw [mapRuns, List.map_id'' fun r => Run.taking_of_ne (Option.some_ne_none _).symm _]

theorem replyEmpty_asleep (m : Machine) (asks : List Nat) :
    (m.replyEmpty asks).asleep = m.asleep.mapRuns (·.silenced asks) := by
  induction asks generalizing m with
  | nil =>
    rw [mapRuns, List.map_id'' Run.silenced_nil]
    rfl
  | cons ask asks ih =>
    have hm := ih (m.mapRuns (·.receive ask ""))
    have hg : ∀ r : Run, (r.receive ask "").asleep = r.asleep.silenced [ask] := fun r => rfl
    rw [asleep_mapRuns m hg] at hm
    simp only [mapRuns, List.map_map, Function.comp_def, Run.silenced_silenced] at hm
    exact hm

theorem halt_asleep {m : Machine} (h : m.attached = true) :
    m.halt.asleep = (m.asleep.mapRuns (·.silenced m.world.asks)).mapWorld World.halted := by
  let quiet := (m.mapWorld fun w => { w with running := false }).mapRuns (·.wake Chain.isPausing)
  have hr : (quiet.replyEmpty m.world.asks).asleep =
      (m.asleep.mapWorld fun w => { w with running := false }).mapRuns
        (·.silenced m.world.asks) := by
    rw [replyEmpty_asleep, asleep_wake, asleep_mapWorld]
  have ha : (quiet.replyEmpty m.world.asks).attached = true := (congrArg attached hr).trans h
  have hh : m.halt = (quiet.replyEmpty m.world.asks).mapWorld fun w =>
      ({ w with asks := [] }.mapStage fun s =>
        { s.clearSpeech with prompts := [] }).stopSounds := by
    simp only [halt]
    exact congrArg _ (funext fun w => congrArg World.stopSounds (if_pos ha))
  rw [hh, asleep_mapWorld, hr]
  rfl

theorem find?_id {l₁ l₂ : List Chain} {c : Chain} (h : ((l₁ ++ c :: l₂).map (·.id)).Nodup) :
    (l₁ ++ c :: l₂).find? (·.id == c.id) = some c :=
  find?_key_of_nodup Chain.id h

theorem unready_asleep (m : Machine) (call id : Nat) :
    (m.mapRun call fun r => { r with ready := r.ready.erase id }).asleep = m.asleep := by
  apply asleep_mapRuns_same
  intro r
  by_cases hr : r.call = call
  · rw [if_pos hr]
    rfl
  · rw [if_neg hr]

theorem putBack_lanes {m : Machine} {R₁ R₂ : List Run} {r : Run}
    (hn : (m.lanes.map (·.call)).Nodup) (h : m.lanes = R₁ ++ r :: R₂) (id : Nat)
    (chain : Option Chain) :
    (m.putBack r.call id chain).lanes =
      R₁ ++ { r with chains := r.chains.filter (·.id != id) ++ chain.toList } :: R₂ := by
  let g : Run → Run := fun r =>
    { r with chains := r.chains.filter (·.id != id) ++ chain.toList }
  apply mapRun_lanes (g := g) hn h
  intro s
  cases chain with
  | none => simp [g, Run.asleep]
  | some c => rfl

theorem lookup_of_split {m : Machine} {R₁ R₂ : List Run} {r : Run} {l₁ l₂ : List Chain} {c : Chain}
    (hn : (m.lanes.map (·.call)).Nodup) (h : m.lanes = R₁ ++ r :: R₂)
    (hi : (r.chains.map (·.id)).Nodup) (hl : r.chains = l₁ ++ c :: l₂) :
    ((m.run? r.call).bind fun s => (s.chains.find? (·.id == c.id)).map ((s.scripts, ·))) =
      some (r.scripts, c) := by
  obtain ⟨s, hs, rfl⟩ := run?_of_split hn h
  have hs' : s.chains = l₁ ++ c :: l₂ := hl
  rw [hs, Option.bind_some, hs', find?_id (hl ▸ hi)]
  rfl

/-- The chain that a resumption lets go on, with the scripts of its run. -/
def resumable? (m : Machine) (call id : Nat) : Option (Table Script × Chain) :=
  ((m.run? call).bind fun r => (r.chains.find? (·.id == id)).map ((r.scripts, ·))).filter
    (·.2.canResume m.world)

theorem run?_asleep (m : Machine) (call : Nat) :
    m.asleep.run? call = (m.run? call).map Run.asleep := by
  simp only [run?, asleep, lanes, List.find?_map]
  rfl

theorem resumable?_asleep (m : Machine) (call id : Nat) :
    m.asleep.resumable? call id = m.resumable? call id := by
  rw [resumable?, resumable?, run?_asleep, Option.bind_map]
  rfl

/-- A resumption takes the turn of a chain, and lets it go on if it can. -/
theorem resumeChain_eq (m : Machine) (fuel call id : Nat) :
    m.resumeChain fuel call id =
      let unready := m.mapRun call fun r => { r with ready := r.ready.erase id }
      match m.resumable? call id with
      | none => (unready, false)
      | some (scripts, c) =>
        let after := c.run scripts fuel m.world
        (({ unready with world := after.1 }.putBack call id after.2).deliver, after.2.isNone) := by
  have hr := resumable?_asleep (m.mapRun call fun r => { r with ready := r.ready.erase id }) call id
  rw [m.unready_asleep call id, resumable?_asleep] at hr
  rw [hr, resumable?]
  simp only [resumeChain]
  split
  · rename_i hnone
    rw [hnone]
    rfl
  · rename_i scripts c hsome
    rw [hsome, Option.filter_some]
    split <;> rfl

theorem resumeChain_split {m : Machine} {R₁ R₂ : List Run} {r : Run} {l₁ l₂ : List Chain}
    {c : Chain} (hn : (m.lanes.map (·.call)).Nodup) (h : m.lanes = R₁ ++ r :: R₂)
    (hi : (r.chains.map (·.id)).Nodup) (hl : r.chains = l₁ ++ c :: l₂) (fuel : Nat)
    (hc : c.canResume m.world = true) :
    let after := c.run r.scripts fuel m.world
    (m.resumeChain fuel r.call c.id).2 = after.2.isNone ∧
      (m.resumeChain fuel r.call c.id).1.asleep =
        { m.asleep with
          world := { after.1 with sent := [] }
          runs := (R₁ ++ { r with chains := l₁ ++ l₂ ++ after.2.toList } :: R₂).map
            (·.taking after.1.sender after.1.sent) } := by
  have hres : m.resumable? r.call c.id = some (r.scripts, c) := by
    rw [resumable?, lookup_of_split hn h hi hl]
    exact Option.filter_some_pos hc
  let unready := m.mapRun r.call fun r => { r with ready := r.ready.erase c.id }
  have hu : unready.asleep = m.asleep := m.unready_asleep r.call c.id
  have hlanes : unready.lanes = m.lanes := congrArg runs hu
  rw [← hlanes] at hn h
  intro after
  have hp := putBack_lanes (m := { unready with world := after.1 }) hn h c.id after.2
  rw [hl] at hi
  rw [hl, filter_key_of_nodup Chain.id hi] at hp
  rw [resumeChain_eq, hres]
  refine ⟨rfl, ?_⟩
  change (({ unready with world := after.1 }.putBack r.call c.id after.2).deliver).asleep = _
  rw [deliver_asleep, ← hp]
  rfl

theorem resumeChain_rests {m : Machine} {R₁ R₂ : List Run} {r : Run} {l₁ l₂ : List Chain}
    {c : Chain} (hn : (m.lanes.map (·.call)).Nodup) (h : m.lanes = R₁ ++ r :: R₂)
    (hi : (r.chains.map (·.id)).Nodup) (hl : r.chains = l₁ ++ c :: l₂) (fuel : Nat)
    (hc : c.canResume m.world = false) : (m.resumeChain fuel r.call c.id).1.world = m.world := by
  have hres : m.resumable? r.call c.id = none := by
    rw [resumable?, lookup_of_split hn h hi hl]
    exact Option.filter_some_neg (Bool.not_eq_true _ ▸ hc)
  rw [resumeChain_eq, hres]
  rfl

theorem resumeChain_idle_or (m : Machine) (fuel call id : Nat) :
    (m.resumeChain fuel call id).1.asleep = m.asleep ∧ m.resumable? call id = none ∨
      ∃ R₁ r R₂ l₁ c l₂, m.lanes = R₁ ++ r :: R₂ ∧ r.call = call ∧ r.chains = l₁ ++ c :: l₂ ∧
        c.id = id ∧ c.canResume m.world = true := by
  rw [resumeChain_eq]
  cases hres : m.resumable? call id with
  | none => exact .inl ⟨m.unready_asleep call id, rfl⟩
  | some p =>
    obtain ⟨hfound, hgo⟩ := Option.filter_eq_some_iff.mp hres
    obtain ⟨s, hs, hfound⟩ := Option.bind_eq_some_iff.mp hfound
    obtain ⟨c, hc, rfl⟩ := Option.map_eq_some_iff.mp hfound
    obtain ⟨hcall, R₁, R₂, hR⟩ := run?_split hs
    obtain ⟨hid, l₁, l₂, hl, -⟩ := List.find?_eq_some_iff_append.mp hc
    exact .inr ⟨R₁, s.asleep, R₂, l₁, c, l₂, hR, hcall, hl, by simpa using hid, hgo⟩

end Machine

end BlockScript

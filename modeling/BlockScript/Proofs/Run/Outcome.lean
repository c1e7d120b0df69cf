import BlockScript.Proofs.Run.Event
import BlockScript.Proofs.Run.Lane
import BlockScript.Proofs.Stage.Names

/-! What an event comes to, case by case. Every fact about machines that events lead to is
derived from these cases. -/

namespace BlockScript

namespace Project

theorem editSprite_cases {p p' : Project} {id : String} {f : Sprite → Sprite}
    (h : (p.editSprite id f).toOption = some p') :
    ∃ s, p.stage.sprite? id = some s ∧ p' = { p with stage := p.stage.updateSprite id f } := by
  unfold editSprite at h
  split at h
  · cases h
  · rename_i s hs
    cases h
    exact ⟨s, hs, rfl⟩

theorem editSprite_touched {p p' : Project} {id : String} {f : Sprite → Sprite}
    (h : (p.editSprite id f).toOption = some p') : p.stage.Touched p'.stage := by
  obtain ⟨s, -, rfl⟩ := editSprite_cases h
  exact p.stage.updateSprite_touched id f

inductive Edited (p : Project) : Edit → Project → Prop
  | adds (costume : String) : Edited p (.addSprite costume) (p.insertSprite costume).1
  | deletes {id : String} {script : Script} (h : p.script? id = some script) :
    Edited p (.deleteSprite id)
      { p with
        stage := { p.stage with sprites := p.stage.sprites.erase id }
        scripts := p.scripts.erase id }
  | rewrites {sprite : String} {edit : Script → Except EditError (Script × Unit)}
    {script : Script} (h : p.script? sprite = some script) (script' : Script) :
    Edited p (.editScript sprite edit) { p with scripts := p.scripts.insert sprite script' }
  | binds {name : String} (vars : Table Value) (monitors : Table Bool)
    (h : p.stage.KeepsNames { p.stage with «variables» := vars, monitors := monitors }) :
    Edited p (.createVariable name)
      { p with stage := { p.stage with «variables» := vars, monitors := monitors } }
  | enables {id : String} (extensions : List String) :
    Edited p (.enableExtension id) { p with extensions := extensions }

theorem edit?_cases {p p' : Project} {e : Edit} (h : p.edit? e = some p') : p.Edited e p' := by
  cases e with
  | addSprite costume =>
    cases h
    exact .adds costume
  | deleteSprite id =>
    simp only [edit?, deleteSprite] at h
    split at h
    · cases h
    · rename_i script hs
      cases h
      exact .deletes hs
  | editScript sprite edit =>
    simp only [edit?, editScript] at h
    split at h
    · cases h
    · rename_i script hs
      split at h
      · cases h
        exact .rewrites hs _
      · cases h
  | createVariable name =>
    simp only [edit?, createVariable] at h
    split at h
    · cases h
    · split at h
      · cases h
      · split at h
        · cases h
        · cases h
          refine .binds _ _ ?_
          exact (Stage.setVariable_keepsNames ..).trans (Stage.setMonitor_keepsNames ..)
  | enableExtension id =>
    simp only [edit?, enableExtension] at h
    split at h
    · cases h
    · split at h
      · cases h
        exact .enables _
      · cases h
        exact .enables _

theorem edit?_touched {p p' : Project} {e : Edit} (h : p.edit? e = some p') :
    p.stage.Touched p'.stage := by
  cases edit?_cases h with
  | adds costume =>
    refine ⟨rfl, rfl, Table.forall_insert ?_⟩
    exact Sprite.create_inRange ..
  | deletes hs => exact ⟨rfl, rfl, fun h b hb => h b (List.mem_of_mem_filter hb)⟩
  | _ => exact .of_sprites rfl rfl rfl

end Project

theorem RunState.stop_ne_running (s : RunState) : s.stop ≠ .running := by
  cases s <;> decide

theorem RunState.finish_ne_running (s : RunState) : s.finish ≠ .running := by
  cases s <;> decide

/-- Whether the host does something that starts no run and ends none. -/
def Event.isHost : Event → Bool
  | edit _ | change .. | rewind => true
  | obey (.click _) | obey .stop => false
  | obey _ => true
  | _ => false

theorem Event.isInternal_of_isHost {e : Event} (h : e.isHost = true) : e.isInternal = false := by
  cases e with
  | edit | change | obey | rewind => rfl
  | _ => cases h

theorem Event.isHalt_of_isHost {e : Event} (h : e.isHost = true) : e.isHalt = false := by
  cases e with
  | obey c =>
    cases c with
    | stop => cases h
    | _ => rfl
  | finish call => cases h
  | _ => rfl

/-- Chains have numbers of their own, up to `last`, and there are none before the start delay is
over. -/
structure Run.Tidy (last : Nat) (r : Run) : Prop where
  ids : (r.chains.map (·.id)).Nodup
  numbered : ∀ c ∈ r.chains, c.id ≤ last
  waiting : ∀ due, r.phase = .starting due → r.chains = []

namespace Run.Tidy

theorem mono {last last' : Nat} {r : Run} (h : r.Tidy last) (hl : last ≤ last') : r.Tidy last' :=
  ⟨h.ids, fun c hc => Nat.le_trans (h.numbered c hc) hl, h.waiting⟩

theorem map_chains {last : Nat} {r : Run} (h : r.Tidy last) {g : Chain → Chain}
    (hg : ∀ c, (g c).id = c.id) : Run.Tidy last { r with chains := r.chains.map g } := by
  refine ⟨?_, ?_, fun due hp => ?_⟩
  · simpa only [List.map_map, Function.comp_def, hg] using h.ids
  · simpa only [List.forall_mem_map, hg] using h.numbered
  · simp only [h.waiting due hp, List.map_nil]

theorem withHats {last : Nat} {r : Run} (h : r.Tidy last) (hp : r.phase = .going)
    (hats : List (String × Script × Block)) : (r.withHats last hats).Tidy (last + hats.length) := by
  refine ⟨?_, fun c hc => ?_, fun due hd => ?_⟩
  · rw [Run.withHats, List.map_append, List.nodup_append]
    refine ⟨h.ids, Chain.nodup_ofHats last hats, ?_⟩
    intro i hi j hj he
    obtain ⟨c, hc, rfl⟩ := List.mem_map.mp hi
    obtain ⟨d, hd, rfl⟩ := List.mem_map.mp hj
    have := h.numbered c hc
    have := (Chain.id_of_mem_ofHats hd).1
    omega
  · rcases List.mem_append.mp hc with hc | hc
    · exact Nat.le_trans (h.numbered c hc) (Nat.le_add_right ..)
    · exact (Chain.id_of_mem_ofHats hc).2
  · cases hp.symm.trans hd

theorem putBack {last : Nat} {r : Run} (h : r.Tidy last) {l₁ l₂ : List Chain} {c : Chain}
    (hl : r.chains = l₁ ++ c :: l₂) {c' : Option Chain} (hc : ∀ d ∈ c', d.id = c.id) :
    Run.Tidy last { r with chains := l₁ ++ l₂ ++ c'.toList } := by
  have hi := h.ids
  have hb := h.numbered
  rw [hl] at hi hb
  have hmid : (l₁ ++ c :: l₂).Perm (l₁ ++ l₂ ++ [c]) :=
    List.perm_middle.trans (List.perm_append_singleton c _).symm
  have hn := ((hmid.map (·.id)).nodup_iff).mp hi
  rw [List.map_append] at hn
  refine ⟨?_, fun d hd => ?_, fun due hp => ?_⟩
  · rw [List.map_append]
    cases c' with
    | none => simpa using hn.of_append_left
    | some d => simpa [hc d rfl] using hn
  · rcases List.mem_append.mp hd with hd | hd
    · exact hb d (hmid.mem_iff.mpr (List.mem_append_left _ hd))
    · rw [hc d (Option.mem_toList.mp hd)]
      exact hb c (List.mem_append_cons_self)
  · have := h.waiting due hp
    simp [hl] at this

theorem chains_of_isOver {last : Nat} {w : World} {r : Run} (h : r.Tidy last)
    (ho : r.isOver w = true) : r.chains = [] := by
  cases hp : r.phase with
  | starting due => exact h.waiting due hp
  | going =>
    simp only [isOver, hp, Bool.and_eq_true, List.isEmpty_iff] at ho
    exact ho.2

end Run.Tidy

namespace World

/-- The clock and the scripts, which only the host touches, are the same. -/
structure SameHost (w w' : World) : Prop where
  now : w'.now = w.now
  scripts : w'.project.scripts = w.project.scripts

theorem SameHost.trans {w w' w'' : World} (h : w.SameHost w') (h' : w'.SameHost w'') :
    w.SameHost w'' :=
  ⟨h'.now.trans h.now, h'.scripts.trans h.scripts⟩

theorem Deed.sameHost {sprite : String} {w w' : World} (h : Deed sprite w w') : w.SameHost w' := by
  cases h with
  | mute =>
    obtain ⟨log, he⟩ := w.stopSounds_eq
    rw [he]
    exact ⟨rfl, rfl⟩
  | _ => exact ⟨rfl, rfl⟩

theorem Deeds.sameHost {sprite : String} {w w' : World} (h : Deeds sprite w w') :
    w.SameHost w' := by
  induction h with
  | refl => exact ⟨rfl, rfl⟩
  | tail _ hd ih => exact ih.trans hd.sameHost

theorem settled_sameHost (w : World) (request : ObjectRequest) :
    w.SameHost (w.settled request) := by
  unfold settled
  split <;> exact ⟨rfl, rfl⟩

theorem SameHost.halted {w w' : World} (h : w.SameHost w') : w.SameHost w'.halted := by
  obtain ⟨log, he⟩ := w'.halted_eq
  rw [he]
  exact ⟨h.now, h.scripts⟩

end World

namespace Chain

theorem Stepped.sameHost {w w' : World} {c : Chain} {c' : Option Chain} (h : c.Stepped w w' c') :
    w.SameHost w' := by
  cases h with
  | plain hc hw h' => exact hw.sameHost
  | ask hc hr hw question frames => exact hw.sameHost.trans ⟨rfl, rfl⟩
  | @request w₁ hc hw prompt frames =>
    obtain ⟨log, he⟩ := w₁.requestTexture_eq prompt
    rw [he]
    exact hw.sameHost.trans ⟨rfl, rfl⟩
  | await hc => exact ⟨rfl, rfl⟩
  | stay => exact ⟨rfl, rfl⟩
  | settle hc hw h' => exact (w.settled_sameHost _).trans hw.sameHost
  | answered hc =>
    unfold World.afterReply
    split <;> exact ⟨rfl, rfl⟩

theorem run_sameHost (scripts : Table Script) (fuel : Nat) (w : World) (c : Chain) :
    w.SameHost (c.run scripts fuel w).1 := by
  refine run_induction (P := fun v _ => w.SameHost v) ?_ ⟨rfl, rfl⟩ fuel
  exact fun v d h => h.trans (step_cases scripts v d).sameHost

end Chain

theorem Chain.receive_id (ask : Nat) (answer : String) (c : Chain) :
    (c.receive ask answer).id = c.id := by
  unfold receive
  split <;> rfl

theorem Chain.silenced_id (asks : List Nat) (c : Chain) : (c.silenced asks).id = c.id := by
  induction asks generalizing c with
  | nil => rfl
  | cons ask asks ih => exact (ih _).trans (c.receive_id ask "")

namespace Machine

/-- No trigger is on its way between two events, and runs have numbers of their own. -/
structure Tidy (m : Machine) : Prop where
  attached : m.attached = true
  sent : m.world.sent = []
  calls : (m.runs.map (·.call)).Nodup
  fresh : ∀ r ∈ m.runs, r.call < m.calls
  runs : ∀ r ∈ m.runs, r.Tidy m.lastChain

theorem tidy_asleep {m : Machine} : m.asleep.Tidy ↔ m.Tidy := by
  have hall (P : Run → Prop) (hP : ∀ r, P r.asleep ↔ P r) :
      (∀ r ∈ m.asleep.runs, P r) ↔ ∀ r ∈ m.runs, P r := by
    simp only [asleep, lanes, List.forall_mem_map, hP]
  have hfresh := hall (fun r => r.call < m.calls) fun r => .rfl
  have hruns := hall (fun r => r.Tidy m.lastChain) fun r =>
    ⟨fun h => ⟨h.ids, h.numbered, h.waiting⟩, fun h => ⟨h.ids, h.numbered, h.waiting⟩⟩
  constructor
  · intro h
    exact ⟨h.attached, h.sent, m.calls_eq ▸ h.calls, hfresh.mp h.fresh, hruns.mp h.runs⟩
  · intro h
    exact ⟨h.attached, h.sent, m.calls_eq ▸ h.calls, hfresh.mpr h.fresh, hruns.mpr h.runs⟩

def starts (m : Machine) (c : Command) : Option Trigger :=
  if m.attached = true ∧ m.world.state ≠ .running then
    match c with
    | .flag => some .flag
    | .click sprite => some (.click sprite)
    | _ => none
  else none

theorem not_running_of_starts {m : Machine} {c : Command} {t : Trigger} (h : m.starts c = some t) :
    m.world.state ≠ .running := by
  intro hs
  have hn : m.starts c = none := if_neg fun hc => hc.2 hs
  rw [hn] at h
  cases h

theorem isCall_of_starts {m : Machine} {c : Command} {t : Trigger} (h : m.starts c = some t) :
    (Event.obey c).isCall = true := by
  unfold starts at h
  split at h
  · cases c with
    | flag | click => rfl
    | _ => cases h
  · cases h

def newRun (m : Machine) (t : Trigger) : Run where
  call := m.calls
  scripts := m.world.project.scripts
  first := t
  phase := .starting (m.world.now + m.world.options.startDelay)
  queue := []
  chains := []
  ready := []

def opened (m : Machine) (t : Trigger) : Machine :=
  { m with
    world := ({ m.world with state := .running, running := true, sender := some m.calls }.mapStage
      (·.clearSpeech)).note (.runStarted t)
    runs := m.runs ++ [m.newRun t]
    calls := m.calls + 1 }

/-- What an event comes to for a machine without the order of turns. -/
inductive Outcome (m : Machine) : Event → Machine → Prop
  | host {e : Event} {project : Project} {now calls : Nat} {log : Array (Nat × Record)}
    (he : e.isHost = true) (hp : m.world.project.stage.Touched project.stage)
    (hc : m.calls ≤ calls ∨ m.runs = []) :
    Outcome m e
      { m with
        world := { m.world with project := project, now := now, log := log }
        calls := calls }
  | tick {time : Nat} (h : m.world.now ≤ time) :
    Outcome m (.advance time) (m.mapWorld fun w => { w with now := time })
  | wakes : Outcome m .fireTimers m
  | rests {fuel call id : Nat} (h : m.resumable? call id = none) :
    Outcome m (.resumeChain fuel call id) m
  | join {sprite : String} (hs : m.world.state = .running) :
    Outcome m (.obey (.click sprite))
      { m.mapRuns (·.taking m.world.sender [.click sprite]) with calls := m.calls + 1 }
  | opens {c : Command} {t : Trigger} (h : m.starts c = some t) :
    Outcome m (.obey c) (m.opened t)
  | stop :
    Outcome m (.obey .stop) ((m.mapRuns (·.silenced m.world.asks)).mapWorld fun w =>
      ({ w with state := w.state.stop }.note .stopRequested).halted)
  | answer {text : String} {ask : Nat} {rest : List Nat} (h : m.world.asks = ask :: rest) :
    Outcome m (.obey (.answer text))
      ((m.mapRuns fun r => { r with chains := r.chains.map (·.receive ask text) }).mapWorld fun w =>
        { w with asks := rest }.mapStage fun s =>
          { s with prompts := s.prompts.filter (·.id != ask) })
  | begins {R₁ R₂ : List Run} {r : Run} {due : Nat}
    (hr : m.runs = R₁ ++ r :: R₂) (hp : r.phase = .starting due) (hw : m.world.running = true) :
    Outcome m (.beginRun r.call)
      { m with
        world := m.world.withStarts (r.first.hats r.scripts)
        runs := R₁ ++
          { r with phase := .going }.withHats m.lastChain (r.first.hats r.scripts) :: R₂
        lastChain := m.lastChain + (r.first.hats r.scripts).length }
  | handles {R₁ R₂ : List Run} {r : Run} {hats : List (String × Script × Block)}
    (hr : m.runs = R₁ ++ r :: R₂) (hp : r.phase = .going)
    (hh : hats = if m.world.running then r.queue.flatMap (·.hats r.scripts) else []) :
    Outcome m (.handleTriggers r.call)
      { m with
        world := m.world.withStarts hats
        runs := R₁ ++ { r with queue := [] }.withHats m.lastChain hats :: R₂
        lastChain := m.lastChain + hats.length }
  | resumes {R₁ R₂ : List Run} {r : Run} {l₁ l₂ : List Chain} {c : Chain} {c' : Option Chain}
    {w' : World} {fuel : Nat} (hr : m.runs = R₁ ++ r :: R₂) (hl : r.chains = l₁ ++ c :: l₂)
    (hc : c.canResume m.world = true) (hrun : c.run r.scripts fuel m.world = (w', c')) :
    Outcome m (.resumeChain fuel r.call c.id)
      { m with
        world := { w' with sent := [] }
        runs := (R₁ ++ { r with chains := l₁ ++ l₂ ++ c'.toList } :: R₂).map
          (·.taking w'.sender w'.sent) }
  | finishes {R₁ R₂ : List Run} {r : Run} (hr : m.runs = R₁ ++ r :: R₂)
    (ho : r.isOver m.world = true) :
    Outcome m (.finish r.call)
      { m with
        world :=
          let w := { m.world with state := m.world.state.finish, sender := none }.halted
          w.note (.runFinished w.state)
        runs := (R₁ ++ R₂).map (·.silenced m.world.asks) }

theorem run?_any {m : Machine} {call : Nat} {p : Run → Bool} (h : (m.run? call).any p = true)
    (hp : ∀ s, p s.asleep = p s) :
    ∃ r R₁ R₂, m.lanes = R₁ ++ r :: R₂ ∧ r.call = call ∧ p r = true := by
  cases hs : m.run? call with
  | none =>
    rw [hs] at h
    cases h
  | some s =>
    rw [hs] at h
    obtain ⟨hc, R₁, R₂, hR⟩ := run?_split hs
    exact ⟨s.asleep, R₁, R₂, hR, hc, (hp s).trans h⟩

theorem finish_asleep {m : Machine} (hm : m.Tidy) {R₁ R₂ : List Run} {r : Run}
    (h : m.lanes = R₁ ++ r :: R₂) :
    (m.finish r.call).asleep =
      { m.asleep with
        world :=
          let w := { m.world with state := m.world.state.finish, sender := none }.halted
          w.note (.runFinished w.state)
        runs := (R₁ ++ R₂).map (·.silenced m.world.asks) } := by
  have hn : (m.lanes.map (·.call)).Nodup := (tidy_asleep.mpr hm).calls
  let left := { m.mapWorld fun w => { w with state := w.state.finish, sender := none } with
    runs := m.runs.filter (·.call != r.call) }
  have hl : left.lanes = R₁ ++ R₂ := by
    rw [h] at hn
    rw [← filter_key_of_nodup Run.call hn, ← h, lanes, lanes, List.filter_map]
    rfl
  have ha : left.halt.asleep =
      (left.asleep.mapRuns (·.silenced m.world.asks)).mapWorld World.halted :=
    halt_asleep hm.attached
  have hf : (m.finish r.call).asleep =
      left.halt.asleep.mapWorld fun w => w.note (.runFinished w.state) := rfl
  rw [hf, ha]
  simp only [mapRuns, asleep, hl]
  rfl

theorem start_eq_opened {m : Machine} (t : Trigger) (h : m.world.state ≠ .running) :
    m.start 0 t = m.opened t := by
  rw [start, if_neg h]
  rfl

theorem start_asleep {m : Machine} (t : Trigger) (h : m.world.state ≠ .running) :
    (m.start 0 t).asleep = m.asleep.opened t := by
  rw [start_eq_opened t h]
  simp only [asleep, lanes, opened, List.map_append]
  rfl

theorem obey_opens {m : Machine} {c : Command} {t : Trigger} (h : m.starts c = some t) :
    (m.obey 0 c).1.asleep = m.asleep.opened t := by
  unfold starts at h
  split at h
  · rename_i hc
    cases c with
    | flag =>
      cases h
      have hf : (m.obey 0 .flag).1 = m.start 0 .flag := if_pos hc.1
      rw [hf, start_asleep _ hc.2]
    | click sprite =>
      cases h
      have hf : (m.obey 0 (.click sprite)).1 = m.start 0 (.click sprite) := by
        simp only [obey, click, hc.1, hc.2]
        rfl
      rw [hf, start_asleep _ hc.2]
    | _ => cases h
  · cases h

theorem click_asleep {m : Machine} (hm : m.Tidy) (sprite : String)
    (h : m.world.state = .running) :
    (m.click 0 sprite).asleep =
      { m.asleep.mapRuns (·.taking m.world.sender [.click sprite]) with calls := m.calls + 1 } := by
  let sent := m.mapWorld (·.send (.click sprite))
  have hc : m.click 0 sprite = sent.deliver.returnNow (.ok ()) := by
    rw [click, if_neg (by simp [hm.attached]), if_pos h]
  have hq : sent.world.sent = [.click sprite] := by
    change m.world.sent ++ [_] = _
    rw [hm.sent, List.nil_append]
  have hd := sent.deliver_asleep
  rw [hq] at hd
  have hw : ({ m.world with sent := [] } : World) = m.world := by
    rw [← hm.sent]
  have hr : (sent.deliver.returnNow (.ok ())).asleep =
      { sent.deliver.asleep with calls := sent.deliver.asleep.calls + 1 } := rfl
  rw [hc, hr, hd]
  change ({ mapRuns m.asleep _ with
    world := { m.world with sent := [] }, calls := _ } : Machine) = _
  rw [hw]
  rfl

theorem obey_outcome {m : Machine} (hm : m.Tidy) (c : Command) :
    Outcome m.asleep (.obey c) (m.obey 0 c).1.asleep := by
  have hsame {c : Command} {f : Stage → Stage} (he : (Event.obey c).isHost = true)
      (hf : m.world.project.stage.Touched (f m.world.project.stage)) :
      Outcome m.asleep (.obey c) (m.mapStage f).asleep :=
    .host he hf (.inl (Nat.le_refl _))
  have hidle {c : Command} (he : (Event.obey c).isHost = true) :
      Outcome m.asleep (.obey c) m.asleep :=
    .host he (.of_sprites rfl rfl rfl) (.inl (Nat.le_refl _))
  cases c with
  | flag =>
    by_cases hs : m.world.state = .running
    · have hf : (m.obey 0 .flag).1 = m.start 0 .flag := if_pos hm.attached
      rw [hf, start, if_pos hs]
      exact .host rfl (.of_sprites rfl rfl rfl) (.inl (Nat.le_succ _))
    · have hf : m.starts .flag = some .flag := if_pos ⟨hm.attached, hs⟩
      rw [obey_opens hf]
      exact .opens hf
  | click sprite =>
    by_cases hs : m.world.state = .running
    · have hc := click_asleep hm sprite hs
      rw [show (m.obey 0 (.click sprite)).1 = m.click 0 sprite from rfl, hc]
      exact .join hs
    · have hf : m.starts (.click sprite) = some (.click sprite) := if_pos ⟨hm.attached, hs⟩
      rw [obey_opens hf]
      exact .opens hf
  | stop =>
    have hh := halt_asleep (m := m.mapWorld fun w =>
      { w with state := w.state.stop }.note .stopRequested) hm.attached
    rw [show (m.obey 0 .stop).1.asleep = _ from hh]
    exact .stop
  | answer text =>
    cases ha : m.world.asks with
    | nil =>
      simp only [obey, answer, ha]
      exact hidle rfl
    | cons ask rest =>
      simp only [obey, answer, ha]
      rw [asleep_mapRuns _ (g := fun r => { r with chains := r.chains.map (·.receive ask text) })
        fun r => rfl]
      exact .answer ha
  | editSprite sprite edit =>
    cases hp : m.world.project.editSprite sprite edit.apply with
    | error e =>
      simp only [obey, hp]
      exact hidle rfl
    | ok p =>
      simp only [obey, hp]
      have ht : m.world.project.stage.Touched p.stage :=
        Project.editSprite_touched (by rw [hp]; rfl)
      exact .host rfl ht (.inl (Nat.le_refl _))
  | resetStage =>
    exact hsame rfl m.world.project.stage.reset_touched
  | moveMouse p => exact hsame rfl (.of_sprites rfl rfl rfl)
  | press key => exact hsame rfl (.of_sprites rfl rfl rfl)
  | release key => exact hsame rfl (.of_sprites rfl rfl rfl)
  | toggleMonitor name => exact hsame rfl (.of_sprites rfl rfl rfl)
  | setVariable name value => exact hsame rfl (.of_sprites rfl rfl rfl)
  | changeVariable name amount => exact hsame rfl (.of_sprites rfl rfl rfl)
  | addObject kind prompt texture => exact hsame rfl (.of_sprites rfl rfl rfl)
  | erasePen => exact hsame rfl (.of_sprites rfl rfl rfl)
  | _ => exact hidle rfl

/-- No command of the host moves the clock or edits a script. -/
theorem obey_sameHost {m : Machine} (hm : m.Tidy) (c : Command) :
    m.world.SameHost (m.obey 0 c).1.world := by
  have hopens {t : Trigger} (h : m.starts c = some t) :
      m.world.SameHost (m.obey 0 c).1.world := by
    have hworld : (m.obey 0 c).1.world = (m.asleep.opened t).world :=
      (congrArg world (obey_opens h) :)
    rw [hworld]
    exact ⟨rfl, rfl⟩
  cases c with
  | flag =>
    by_cases hs : m.world.state = .running
    · have hf : (m.obey 0 .flag).1 = m.start 0 .flag := if_pos hm.attached
      rw [hf, start, if_pos hs]
      exact ⟨rfl, rfl⟩
    · exact hopens (if_pos ⟨hm.attached, hs⟩)
  | click sprite =>
    by_cases hs : m.world.state = .running
    · have hworld : (m.obey 0 (.click sprite)).1.world = m.world :=
        (congrArg world (click_asleep hm sprite hs) :)
      rw [hworld]
      exact ⟨rfl, rfl⟩
    · exact hopens (if_pos ⟨hm.attached, hs⟩)
  | stop =>
    let stopping := m.mapWorld fun w => { w with state := w.state.stop }.note .stopRequested
    have hworld : (m.obey 0 .stop).1.world = stopping.world.halted :=
      (congrArg world (halt_asleep (m := stopping) hm.attached) :)
    rw [hworld]
    exact World.SameHost.halted ⟨rfl, rfl⟩
  | answer text =>
    cases ha : m.world.asks with
    | nil =>
      simp only [obey, answer, ha]
      exact ⟨rfl, rfl⟩
    | cons ask rest =>
      simp only [obey, answer, ha]
      exact ⟨rfl, rfl⟩
  | editSprite sprite edit =>
    cases hp : m.world.project.editSprite sprite edit.apply with
    | error e =>
      simp only [obey, hp]
      exact ⟨rfl, rfl⟩
    | ok p =>
      obtain ⟨s, -, rfl⟩ := Project.editSprite_cases (show _ = some p by rw [hp]; rfl)
      simp only [obey, hp]
      exact ⟨rfl, rfl⟩
  | _ => exact ⟨rfl, rfl⟩

theorem next?_advance {m m' : Machine} {time : Nat} (h : m.next? (.advance time) = some m') :
    m.world.now ≤ time ∧ m' = m.mapWorld fun w => { w with now := time } := by
  simp only [next?] at h
  split at h
  · rename_i hlater
    cases h
    exact ⟨hlater, rfl⟩
  · cases h

theorem next?_outcome {m m' : Machine} {e : Event} (hm : m.Tidy) (h : m.next? e = some m') :
    Outcome m.asleep e m'.asleep := by
  have hn : (m.lanes.map (·.call)).Nodup := (tidy_asleep.mpr hm).calls
  have hempty : m.runs.isEmpty = true → m.asleep.runs = [] := fun h => by
    simp [asleep, lanes, List.isEmpty_iff.mp h]
  cases e with
  | edit e =>
    simp only [next?] at h
    split at h
    · rename_i hr
      obtain ⟨p, hp, rfl⟩ := Option.map_eq_some_iff.mp h
      exact .host rfl (Project.edit?_touched hp) (.inl (Nat.le_refl _))
    · cases h
  | change sprite f =>
    obtain ⟨p, hp, rfl⟩ := Option.map_eq_some_iff.mp h
    exact .host rfl (Project.editSprite_touched hp) (.inl (Nat.le_refl _))
  | obey c =>
    cases h
    exact obey_outcome hm c
  | rewind =>
    simp only [next?] at h
    split at h
    · rename_i hr
      cases h
      exact .host rfl (.of_sprites rfl rfl rfl) (.inr (hempty hr))
    · cases h
  | advance time =>
    simp only [next?] at h
    split at h
    · rename_i ht
      cases h
      exact .tick ht
    · cases h
  | fireTimers =>
    cases h
    rw [fireTimers, asleep_wake]
    exact .wakes
  | beginRun call =>
    simp only [next?] at h
    split at h
    · rename_i hb
      cases h
      obtain ⟨r, R₁, R₂, hr, rfl, hc⟩ := run?_any hb fun s => rfl
      rw [beginRun_asleep hn hr]
      cases hp : r.phase with
      | starting due =>
        simp only [Run.canBegin, hp, Bool.and_eq_true] at hc
        exact .begins hr hp hc.1
      | going =>
        simp only [Run.canBegin, hp] at hc
        cases hc
    · cases h
  | handleTriggers call =>
    simp only [next?] at h
    split at h
    · rename_i hb
      cases h
      obtain ⟨r, R₁, R₂, hr, rfl, hp⟩ := run?_any hb fun s => rfl
      rw [handleTriggers_asleep hn hr]
      exact .handles hr (of_decide_eq_true hp) rfl
    · cases h
  | resumeChain fuel call id =>
    cases h
    rcases m.resumeChain_idle_or fuel call id with
      ⟨he, hn⟩ | ⟨R₁, r, R₂, l₁, c, l₂, hr, rfl, hl, rfl, hc⟩
    · rw [he]
      exact .rests (m.resumable?_asleep call id ▸ hn)
    · have hi := ((tidy_asleep.mpr hm).runs r (by rw [asleep, hr]; simp)).ids
      rw [(resumeChain_split hn hr hi hl fuel hc).2]
      exact .resumes hr hl hc rfl
  | finish call =>
    simp only [next?] at h
    split at h
    · rename_i hb
      cases h
      obtain ⟨r, R₁, R₂, hr, rfl, ho⟩ := run?_any hb fun s => rfl
      rw [finish_asleep hm hr]
      exact .finishes hr ho
    · cases h

theorem Outcome.sameHost {m m' : Machine} {e : Event} (h : Outcome m e m')
    (he : e.isHost = false) (ha : ∀ time, e ≠ .advance time) : m.world.SameHost m'.world := by
  cases h with
  | host he' hp hc => simp [he] at he'
  | tick h => exact absurd rfl (ha _)
  | stop => exact World.SameHost.halted ⟨rfl, rfl⟩
  | @resumes R₁ R₂ r l₁ l₂ c c' w' fuel hr hl hc hrun =>
    have hsame := c.run_sameHost r.scripts fuel m.world
    rw [hrun] at hsame
    exact ⟨hsame.now, hsame.scripts⟩
  | finishes hr ho =>
    let ended := { m.world with state := m.world.state.finish, sender := none }
    have hsame : m.world.SameHost ended.halted := World.SameHost.halted ⟨rfl, rfl⟩
    exact ⟨hsame.now, hsame.scripts⟩
  | _ => exact ⟨rfl, rfl⟩

theorem Outcome.running {m m' : Machine} {e : Event} (h : Outcome m e m') (hc : e.isCall = false) :
    m'.world.running = (m.world.running && !e.isHalt) := by
  have hsame (hh : e.isHalt = false) : m.world.running = (m.world.running && !e.isHalt) := by
    rw [hh, Bool.not_false, Bool.and_true]
  have hhalt (hh : e.isHalt = true) : false = (m.world.running && !e.isHalt) := by
    rw [hh, Bool.not_true, Bool.and_false]
  cases h with
  | host he hp hc' => exact hsame (Event.isHalt_of_isHost he)
  | opens h =>
    rw [isCall_of_starts h] at hc
    cases hc
  | stop => exact (World.halted_running _).trans (hhalt rfl)
  | @resumes R₁ R₂ r l₁ l₂ c c' w' fuel hr hl hc' hrun =>
    have hw := (c.run_same_run r.scripts fuel m.world).2.1
    rw [hrun] at hw
    exact hw.trans (hsame rfl)
  | finishes hr ho => exact (World.halted_running _).trans (hhalt rfl)
  | _ => exact hsame rfl

theorem Tidy.of_sublist {m m' : Machine} (hm : m.Tidy) (ha : m'.attached = m.attached)
    (hs : m'.world.sent = []) (hc : m.calls ≤ m'.calls)
    (hr : (m'.runs.map (·.call)).Sublist (m.runs.map (·.call)))
    (ht : ∀ r ∈ m'.runs, r.Tidy m'.lastChain) : m'.Tidy := by
  refine ⟨ha.trans hm.attached, hs, hm.calls.sublist hr, fun r hr' => ?_, ht⟩
  obtain ⟨s, hs, he⟩ := List.mem_map.mp (hr.subset (List.mem_map_of_mem hr'))
  exact Nat.lt_of_lt_of_le (he ▸ hm.fresh s hs) hc

theorem tidy_middle {R₁ R₂ : List Run} {r r' : Run} {last last' : Nat}
    (h : ∀ s ∈ R₁ ++ r :: R₂, s.Tidy last) (hr : r'.Tidy last') (hl : last ≤ last') :
    ∀ s ∈ R₁ ++ r' :: R₂, s.Tidy last' := by
  intro s hs
  simp only [List.mem_append, List.mem_cons] at hs h
  rcases hs with hs | rfl | hs
  · exact (h s (.inl hs)).mono hl
  · exact hr
  · exact (h s (.inr (.inr hs))).mono hl

theorem Outcome.tidy {m m' : Machine} {e : Event} (h : Outcome m e m') (hm : m.Tidy) :
    m'.Tidy := by
  cases h with
  | host he hp hc =>
    refine ⟨hm.attached, hm.sent, hm.calls, fun r hr => ?_, hm.runs⟩
    rcases hc with hc | hc
    · exact Nat.lt_of_lt_of_le (hm.fresh r hr) hc
    · have hr' : r ∈ m.runs := hr
      rw [hc] at hr'
      cases hr'
  | tick h => exact ⟨hm.attached, hm.sent, hm.calls, hm.fresh, hm.runs⟩
  | wakes => exact hm
  | rests h => exact hm
  | join hs =>
    refine hm.of_sublist rfl hm.sent (Nat.le_succ _) (calls_sublist m.runs ?_) ?_
    · exact fun r => rfl
    · simp only [mapRuns, List.forall_mem_map]
      exact fun r hr => ⟨(hm.runs r hr).ids, (hm.runs r hr).numbered, (hm.runs r hr).waiting⟩
  | opens h =>
    refine ⟨hm.attached, hm.sent, ?_, ?_, ?_⟩
    · simp only [opened, newRun, List.map_append, List.map_cons, List.map_nil, List.nodup_append]
      refine ⟨hm.calls, by simp, ?_⟩
      intro i hi j hj
      obtain ⟨r, hr, rfl⟩ := List.mem_map.mp hi
      have := hm.fresh r hr
      simp only [List.mem_singleton] at hj
      omega
    · simp only [opened, List.forall_mem_append, List.forall_mem_singleton]
      exact ⟨fun r hr => Nat.lt_succ_of_lt (hm.fresh r hr), Nat.lt_succ_self _⟩
    · simp only [opened, List.forall_mem_append, List.forall_mem_singleton]
      exact ⟨hm.runs, .nil, by simp [newRun], fun _ _ => rfl⟩
  | stop =>
    refine hm.of_sublist rfl ?_ (Nat.le_refl _) (calls_sublist m.runs ?_) ?_
    · exact (World.halted_sent _).trans hm.sent
    · exact fun r => rfl
    · simp only [mapWorld, mapRuns, List.forall_mem_map]
      exact fun r hr => (hm.runs r hr).map_chains (Chain.silenced_id _)
  | answer h =>
    refine hm.of_sublist rfl hm.sent (Nat.le_refl _) (calls_sublist m.runs ?_) ?_
    · exact fun r => rfl
    · simp only [mapWorld, mapRuns, List.forall_mem_map]
      exact fun r hr => (hm.runs r hr).map_chains (Chain.receive_id _ _)
  | @begins R₁ R₂ r due hr hp hw =>
    have hR := hm.runs
    rw [hr] at hR
    have hat := hR r (by simp)
    have hgo : Run.Tidy m.lastChain { r with phase := .going } := by
      refine ⟨hat.ids, hat.numbered, fun due hd => ?_⟩
      cases hd
    refine hm.of_sublist rfl hm.sent (Nat.le_refl _) ?_ ?_
    · simp only [hr, List.map_append, List.map_cons]
      exact .refl _
    · exact tidy_middle hR (hgo.withHats rfl _) (Nat.le_add_right ..)
  | @handles R₁ R₂ r hats hr hp hh =>
    have hR := hm.runs
    rw [hr] at hR
    have hat := hR r (by simp)
    have hgo : Run.Tidy m.lastChain { r with queue := [] } :=
      ⟨hat.ids, hat.numbered, hat.waiting⟩
    refine hm.of_sublist rfl hm.sent (Nat.le_refl _) ?_ ?_
    · simp only [hr, List.map_append, List.map_cons]
      exact .refl _
    · exact tidy_middle hR (hgo.withHats hp _) (Nat.le_add_right ..)
  | @resumes R₁ R₂ r l₁ l₂ c c' w' fuel hr hl hc hrun =>
    have hR := hm.runs
    rw [hr] at hR
    have hid : ∀ d ∈ c', d.id = c.id := fun d hd => by
      have hd' : (c.run r.scripts fuel m.world).2 = some d := by rw [hrun]; exact hd
      exact (Chain.run_id hd').1
    have hback := (hR r (by simp)).putBack hl hid
    refine hm.of_sublist rfl rfl (Nat.le_refl _) ?_ ?_
    · refine (calls_sublist _ ?_).trans ?_
      · exact fun r => rfl
      · simp only [hr, List.map_append, List.map_cons]
        exact .refl _
    · simp only [List.forall_mem_map]
      intro s hs
      have ht := tidy_middle hR hback (Nat.le_refl _) s hs
      exact ⟨ht.ids, ht.numbered, ht.waiting⟩
  | @finishes R₁ R₂ r hr ho =>
    refine hm.of_sublist rfl ?_ (Nat.le_refl _) ?_ ?_
    · exact (World.halted_sent _).trans hm.sent
    · refine (calls_sublist _ ?_).trans ?_
      · exact fun r => rfl
      · rw [hr]
        exact (List.Sublist.append_left (List.sublist_cons_self r R₂) R₁).map _
    · simp only [List.forall_mem_map]
      intro s hs
      refine Run.Tidy.map_chains (hm.runs s ?_) (Chain.silenced_id _)
      rw [hr]
      simp only [List.mem_append, List.mem_cons] at hs ⊢
      tauto

theorem create_tidy (project : Project) (options : Options) (services : Services) :
    (create project options services).Tidy :=
  ⟨rfl, rfl, .nil, by simp [create], by simp [create]⟩

theorem Tidy.next {m m' : Machine} {e : Event} (hm : m.Tidy) (h : m.next? e = some m') :
    m'.Tidy := by
  have ho := next?_outcome hm h
  exact tidy_asleep.mp (ho.tidy (tidy_asleep.mpr hm))

theorem Tidy.after {m m' : Machine} {es : List Event} (hm : m.Tidy) (h : m.after es = some m') :
    m'.Tidy :=
  after_induction (P := fun _ m => m.Tidy) hm (fun _ _ _ _ _ hm he => hm.next he) h

theorem Reachable.tidy {m : Machine} (h : m.Reachable) : m.Tidy := by
  obtain ⟨options, services, es, h⟩ := h
  exact (create_tidy .empty options services).after h

/-- What holds of the world and its chains at first and is kept by every outcome holds in every
machine that events lead to. -/
theorem Reachable.invariant {P : World → List Chain → Prop}
    (first : ∀ options services, P (create .empty options services).world [])
    (step : ∀ {m e m'}, Outcome m e m' → m.Tidy → P m.world m.chains → P m'.world m'.chains)
    {m : Machine} (h : m.Reachable) : P m.world m.chains := by
  obtain ⟨options, services, es, h⟩ := h
  refine after_induction (P := fun _ m => P m.world m.chains) (first options services) ?_ h
  intro es m e m' hb hp he
  have hm := (create_tidy .empty options services).after hb
  rw [← chains_asleep] at hp ⊢
  exact step (next?_outcome hm he) (tidy_asleep.mpr hm) hp

def chain? (m : Machine) (call id : Nat) : Option Chain :=
  (m.run? call).bind fun r => r.chains.find? (·.id == id)

theorem chain?_asleep (m : Machine) (call id : Nat) :
    m.asleep.chain? call id = m.chain? call id := by
  rw [chain?, chain?, run?_asleep, Option.bind_map]
  rfl

theorem mem_chains_of_chain? {m : Machine} {call id : Nat} {c : Chain}
    (h : m.chain? call id = some c) : c ∈ m.chains := by
  obtain ⟨r, hr, hc⟩ := Option.bind_eq_some_iff.mp h
  exact List.mem_flatMap.mpr ⟨r, List.mem_of_find?_eq_some hr, List.mem_of_find?_eq_some hc⟩

theorem chain?_eq_some_iff {m : Machine} (hm : m.Tidy) {call id : Nat} {c : Chain} :
    m.chain? call id = some c ↔ c.id = id ∧ ∃ r ∈ m.runs, r.call = call ∧ c ∈ r.chains := by
  constructor
  · intro h
    obtain ⟨r, hr, hc⟩ := Option.bind_eq_some_iff.mp h
    refine ⟨by simpa using List.find?_some hc, r, List.mem_of_find?_eq_some hr, ?_, ?_⟩
    · simpa using List.find?_some hr
    · exact List.mem_of_find?_eq_some hc
  · rintro ⟨rfl, r, hr, rfl, hc⟩
    obtain ⟨R₁, R₂, hR⟩ := List.append_of_mem (List.mem_map_of_mem (f := Run.asleep) hr)
    obtain ⟨l₁, l₂, hl⟩ := List.append_of_mem hc
    obtain ⟨s, hs, he⟩ := run?_of_split (tidy_asleep.mpr hm).calls hR
    have hchains : s.chains = l₁ ++ c :: l₂ := (congrArg Run.chains he).trans hl
    have hids : ((l₁ ++ c :: l₂).map (·.id)).Nodup := hl ▸ (hm.runs r hr).ids
    rw [chain?, show m.run? r.call = some s from hs, Option.bind_some, hchains]
    exact find?_id hids

theorem resumable?_of_split {m : Machine} (hm : m.Tidy) {R₁ R₂ : List Run} {r : Run}
    {l₁ l₂ : List Chain} {c : Chain} (hr : m.runs = R₁ ++ r :: R₂) (hl : r.chains = l₁ ++ c :: l₂)
    (hc : c.canResume m.world = true) : m.resumable? r.call c.id = some (r.scripts, c) := by
  have hrun : m.run? r.call = some r := by
    rw [run?, hr]
    exact find?_key_of_nodup Run.call (hr ▸ hm.calls)
  have hi := (hm.runs r (by simp [hr])).ids
  rw [hl] at hi
  rw [resumable?, hrun, Option.bind_some, hl, find?_id hi]
  exact Option.filter_some_pos hc

theorem resumable?_of_mem {m : Machine} (hm : m.Tidy) {r : Run} (hr : r ∈ m.runs) {c : Chain}
    (hc : c ∈ r.chains) (hgo : c.canResume m.world = true) :
    m.resumable? r.call c.id = some (r.scripts, c) := by
  obtain ⟨R₁, R₂, hR⟩ := List.append_of_mem hr
  obtain ⟨l₁, l₂, hl⟩ := List.append_of_mem hc
  exact resumable?_of_split hm hR hl hgo

theorem of_resumable? {m : Machine} {call id : Nat} {scripts : Table Script} {c : Chain}
    (h : m.resumable? call id = some (scripts, c)) :
    c.id = id ∧ c.canResume m.world = true ∧
      ∃ r ∈ m.runs, r.call = call ∧ r.scripts = scripts ∧ c ∈ r.chains := by
  obtain ⟨hfound, hgo⟩ := Option.filter_eq_some_iff.mp h
  obtain ⟨r, hr, hfound⟩ := Option.bind_eq_some_iff.mp hfound
  obtain ⟨d, hd, heq⟩ := Option.map_eq_some_iff.mp hfound
  cases heq
  refine ⟨by simpa using List.find?_some hd, hgo, r, List.mem_of_find?_eq_some hr, ?_, rfl, ?_⟩
  · simpa using List.find?_some hr
  · exact List.mem_of_find?_eq_some hd

theorem resumeChain_idle {m : Machine} (hm : m.Tidy) {call id : Nat}
    (h : ∀ c ∈ m.chain? call id, c.canResume m.world = false) (fuel : Nat) :
    (m.resumeChain fuel call id).1.asleep = m.asleep := by
  rcases m.resumeChain_idle_or fuel call id with
    ⟨he, -⟩ | ⟨R₁, r, R₂, l₁, c, l₂, hR, hcall, hl, hid, hc⟩
  · exact he
  · have hr : r ∈ m.asleep.runs := by simp [asleep, hR]
    have hfound : m.asleep.chain? call id = some c :=
      (chain?_eq_some_iff (tidy_asleep.mpr hm)).mpr ⟨hid, r, hr, hcall, by simp [hl]⟩
    rw [chain?_asleep] at hfound
    rw [h c hfound] at hc
    cases hc

/-- A chain that is resumed runs in the scripts of its run. -/
theorem resumeChain_of_mem {m : Machine} (hm : m.Tidy) {s : Run} (hs : s ∈ m.runs) {c : Chain}
    (hmem : c ∈ s.chains) (hc : c.canResume m.world = true) (fuel : Nat) :
    (m.resumeChain fuel s.call c.id).1.world =
        { (c.run s.scripts fuel m.world).1 with sent := [] } ∧
      (m.resumeChain fuel s.call c.id).1.chain? s.call c.id =
        (c.run s.scripts fuel m.world).2 := by
  have hm' := tidy_asleep.mpr hm
  have hi := (hm.runs s hs).ids
  obtain ⟨R₁, R₂, hR⟩ := List.append_of_mem (List.mem_map_of_mem (f := Run.asleep) hs)
  obtain ⟨l₁, l₂, hl⟩ := List.append_of_mem hmem
  have hafter : (m.resumeChain fuel s.call c.id).1.asleep = _ :=
    (resumeChain_split hm'.calls hR hi hl fuel hc).2
  have htidy : (m.resumeChain fuel s.call c.id).1.Tidy := by
    have hnext : m.next? (.resumeChain fuel s.call c.id) = some _ := rfl
    exact hm.next hnext
  refine ⟨congrArg world hafter, ?_⟩
  have hself : ∀ d ∈ (c.run s.scripts fuel m.world).2, d.id = c.id := fun d hd =>
    (Chain.run_id hd).1
  have hothers := key_ne_of_nodup Chain.id (hl ▸ hi)
  have hcalls := key_ne_of_nodup Run.call (show ((R₁ ++ s.asleep :: R₂).map (·.call)).Nodup from
    hR ▸ hm'.calls)
  rw [← chain?_asleep, hafter]
  rw [← tidy_asleep, hafter] at htidy
  ext d
  rw [chain?_eq_some_iff htidy]
  simp only [List.mem_map]
  constructor
  · rintro ⟨hd, _, ⟨t, ht, rfl⟩, hcall, hdt⟩
    rcases List.mem_append.mp ht with ht | ht
    · exact absurd hcall (hcalls t (List.mem_append_left _ ht))
    · rcases List.mem_cons.mp ht with rfl | ht
      · rcases List.mem_append.mp hdt with hdt | hdt
        · exact absurd hd (hothers d hdt)
        · exact Option.mem_toList.mp hdt
      · exact absurd hcall (hcalls t (List.mem_append_right _ ht))
  · intro hd
    refine ⟨hself d hd, _, ⟨_, List.mem_append_cons_self, rfl⟩, rfl, ?_⟩
    exact List.mem_append_right _ (Option.mem_toList.mpr hd)

theorem resumeChain_chain? {m : Machine} (hm : m.Tidy) {call id : Nat} {c : Chain}
    (h : m.chain? call id = some c) (hc : c.canResume m.world = true) :
    ∃ scripts, ∀ fuel,
      (m.resumeChain fuel call id).1.world = { (c.run scripts fuel m.world).1 with sent := [] } ∧
        (m.resumeChain fuel call id).1.chain? call id = (c.run scripts fuel m.world).2 := by
  obtain ⟨rfl, s, hs, rfl, hmem⟩ := (chain?_eq_some_iff hm).mp h
  exact ⟨s.scripts, resumeChain_of_mem hm hs hmem hc⟩

end Machine

end BlockScript

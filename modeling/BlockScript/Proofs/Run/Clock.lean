import BlockScript.Proofs.Run.Private
import BlockScript.Proofs.Run.Trigger

/-! The clock and the sounds that are cut. Only the host moves the clock. The world counts each time
that all sounds are cut: by a stop, at the end of a run, or by a block of any chain. -/

namespace BlockScript

namespace World

theorem stopSounds_generation (w : World) : w.stopSounds.generation = w.generation + 1 := by
  obtain ⟨log, he⟩ := w.stopSounds_eq
  rw [he]

theorem halted_generation (w : World) : w.halted.generation = w.generation + 1 := by
  obtain ⟨log, he⟩ := w.halted_eq
  rw [he]

theorem entered_generation (w : World) (sprite : String) (b : Block) (depth : Nat) :
    (w.entered sprite b depth).generation = w.generation := by
  obtain ⟨dice, log, he⟩ := w.entered_eq sprite b depth
  rw [he]

theorem played_generation (w : World) (sound : String) (waits : Bool) :
    (w.played sound waits).generation = w.generation := by
  obtain ⟨log, he⟩ := w.played_eq sound waits
  rw [he]

/-- Only the block that stops all sounds cuts them. -/
theorem Effect.generation {w w' : World} {sprite : String} {blocks : List Block} {b : Block}
    {depth : Nat} {arg : String → Value} {frame : Option Frame} {task : Task}
    (h : w.Effect sprite blocks b depth arg w' frame task) (hb : b.kind ≠ .stopSounds) :
    w'.generation = w.generation := by
  cases h with
  | plays | listens => exact w.played_generation ..
  | mutes hk => exact absurd hk hb
  | calls h =>
    obtain ⟨log, rfl⟩ := h.eq
    rfl
  | requests prompt =>
    obtain ⟨log, he⟩ := w.requestTexture_eq prompt
    rw [he]
    rfl
  | _ => rfl

theorem perform_generation (w : World) (scripts : Table Script) (sprite : String)
    (blocks : List Block) (b : Block) (depth : Nat) (arg : String → Value) :
    (w.perform scripts sprite blocks b depth arg).1.generation =
      w.generation + if b.kind = .stopSounds then 1 else 0 := by
  by_cases hb : b.kind = .stopSounds
  · rw [if_pos hb]
    simp only [perform, hb, stopSounds_generation]
  · rw [if_neg hb]
    exact (w.perform_effect scripts sprite blocks b depth arg).generation hb

theorem Sequel.generation {w w' : World} {sprite : String} {frames frames' : List Frame}
    {going : Bool} {purpose : Purpose} {task : Task}
    (h : w.Sequel sprite frames going purpose w' frames' task) :
    w'.generation = w.generation := by
  cases h <;> rfl

theorem afterReply_generation (w : World) (sprite : String) (ask : Nat) (answer : String) :
    (w.afterReply sprite ask answer).generation = w.generation := by
  unfold afterReply
  split <;> rfl

theorem noteOverruns_generation (w : World) (sprite : String) (b : Block) (names : List String) :
    (w.noteOverruns sprite b names).generation = w.generation := by
  obtain ⟨log, he⟩ := w.noteOverruns_eq sprite b names
  rw [he]

end World

namespace Chain

theorem moments_now (scripts : Table Script) (fuel : Nat) (w : World) (c : Chain) :
    ∀ p ∈ c.moments scripts fuel w, p.1.now = w.now := by
  induction fuel generalizing w c with
  | zero => simp [moments]
  | succ fuel ih =>
    have hs := (step_cases scripts w c).sameHost.now
    rw [moments]
    generalize c.step scripts w = p at hs
    obtain ⟨w', _ | d⟩ := p
    · simp
    · rw [List.forall_mem_cons]
      refine ⟨rfl, fun p hp => ?_⟩
      simp only at hp
      split at hp
      · cases hp
      · exact (ih w' d p hp).trans hs

/-- Whether the chain is about to stop all sounds. -/
def cuts (w : World) (c : Chain) : Bool :=
  match c.task with
  | .block _ b _ => w.running && b.kind == .stopSounds
  | _ => false

theorem step_generation (scripts : Table Script) (w : World) (c : Chain) :
    (c.step scripts w).1.generation = w.generation + if c.cuts w then 1 else 0 := by
  have hs := c.step_transition scripts w
  generalize (c.step scripts w).1 = w', (c.step scripts w).2 = c' at hs ⊢
  have hsame {task : Task} {w' : World} (ht : c.task = task)
      (hw : w'.generation = w.generation) (hc : cuts w { c with task := task } = false) :
      w'.generation = w.generation + if c.cuts w then 1 else 0 := by
    have hc : c.cuts w = false := by simpa only [cuts, ht] using hc
    rw [hc, hw]
    rfl
  cases hs with
  | @begins blocks b depth w' frame task ht hr hp =>
    have hw := World.perform_generation (w.entered c.sprite b depth) scripts c.sprite blocks b depth
      ((w.entered c.sprite b depth).read c.sprite b)
    rw [hp, w.entered_generation] at hw
    simpa only [cuts, ht, hr, Bool.true_and, beq_iff_eq] using hw
  | passes ht hr => exact hsame ht rfl (by simp only [cuts, hr, Bool.false_and])
  | sees ht | misses ht => exact hsame ht (w.noteOverruns_generation ..) rfl
  | hurries ht hd hq => exact hsame ht hq.generation rfl
  | wakes ht ho hq => exact hsame ht hq.generation rfl
  | hears ht => exact hsame ht (w.afterReply_generation ..) rfl
  | first ht | bare ht | capped ht | enters ht | hollow ht | again ht | leaves ht | astray ht
  | waits ht | stays ht | ends ht | finishes ht | rounds ht => exact hsame ht rfl rfl

theorem run_generation (scripts : Table Script) (fuel : Nat) (w : World) (c : Chain) :
    (c.run scripts fuel w).1.generation =
      w.generation + (c.moments scripts fuel w).countP fun p => p.2.cuts p.1 := by
  induction fuel generalizing w c with
  | zero => rfl
  | succ fuel ih =>
    have hs := c.step_generation scripts w
    rw [run, moments, List.countP_cons]
    generalize c.step scripts w = p at hs
    obtain ⟨w', _ | d⟩ := p
    · rw [List.countP_nil, Nat.zero_add]
      exact hs
    · simp only at hs ⊢
      by_cases hwait : d.isWaiting = true
      · rw [if_pos hwait, if_pos hwait, List.countP_nil, Nat.zero_add]
        exact hs
      · rw [if_neg hwait, if_neg hwait, ih, hs, Nat.add_assoc, Nat.add_comm (List.countP ..)]

end Chain

namespace Machine

/-- The times at which all sounds are cut in an event. -/
def cutsBy (m : Machine) (e : Event) (m' : Machine) : List Nat :=
  match e with
  | .obey .stop | .finish _ => [m.world.now]
  | .resumeChain _ call id =>
    ((momentsBy call id m e m').filter fun p => p.2.cuts p.1).map (·.1.now)
  | _ => []

theorem cutsBy_asleep (m m' : Machine) (e : Event) :
    cutsBy m.asleep e m'.asleep = cutsBy m e m' := by
  cases e with
  | resumeChain fuel call id => simp only [cutsBy, momentsBy_asleep]
  | _ => rfl

theorem cutsBy_of_isHost {e : Event} (he : e.isHost = true) (m m' : Machine) :
    cutsBy m e m' = [] := by
  cases e with
  | obey c =>
    cases c with
    | stop => cases he
    | _ => rfl
  | edit | change | rewind => rfl
  | _ => cases he

theorem cutsBy_of_isCall {e : Event} (he : e.isCall = true) (m m' : Machine) :
    cutsBy m e m' = [] := by
  cases e with
  | obey c =>
    cases c with
    | flag | click => rfl
    | _ => cases he
  | _ => cases he

theorem momentsBy_resumeChain (m m' : Machine) (fuel call id : Nat) :
    momentsBy call id m (.resumeChain fuel call id) m' =
      match m.resumable? call id with
      | some (scripts, c) => c.moments scripts fuel m.world
      | none => [] := by
  cases h : m.resumable? call id <;> simp only [momentsBy, and_self, if_true, h]

theorem now_of_mem_cutsBy {m m' : Machine} {e : Event} {time : Nat} (h : time ∈ cutsBy m e m') :
    time = m.world.now := by
  unfold cutsBy at h
  split at h
  · exact List.mem_singleton.mp h
  · exact List.mem_singleton.mp h
  · rename_i fuel call id
    rw [momentsBy_resumeChain] at h
    obtain ⟨p, hp, rfl⟩ := List.mem_map.mp h
    have hmem := List.mem_of_mem_filter hp
    split at hmem
    · exact Chain.moments_now _ _ _ _ p hmem
    · cases hmem
  · cases h

theorem Outcome.generation {m m' : Machine} {e : Event} (h : Outcome m e m') (hm : m.Tidy) :
    m'.world.generation = m.world.generation + (cutsBy m e m').length := by
  cases h with
  | host he hp hc =>
    rw [cutsBy_of_isHost he]
    rfl
  | opens h =>
    rw [cutsBy_of_isCall (isCall_of_starts h)]
    rfl
  | rests h =>
    rw [cutsBy, momentsBy_resumeChain, h]
    rfl
  | stop => exact World.halted_generation _
  | @resumes R₁ R₂ r l₁ l₂ c c' w' fuel hr hl hc hrun =>
    have hcount := c.run_generation r.scripts fuel m.world
    rw [hrun] at hcount
    rw [cutsBy, momentsBy_resumeChain, resumable?_of_split hm hr hl hc, List.length_map,
      ← List.countP_eq_length_filter]
    exact hcount
  | finishes hr ho => exact World.halted_generation _
  | _ => rfl

theorem next?_generation {m m' : Machine} (hm : m.Tidy) {e : Event} (h : m.next? e = some m') :
    m'.world.generation = m.world.generation + (cutsBy m e m').length := by
  have ho := (next?_outcome hm h).generation (tidy_asleep.mpr hm)
  rw [cutsBy_asleep] at ho
  exact ho

/-- While a run is going on, nothing but its own advance moves the clock. -/
theorem next?_now {m m' : Machine} (hm : m.Tidy) (hr : m.runs ≠ []) {e : Event}
    (h : m.next? e = some m') (ha : ∀ time, e ≠ .advance time) :
    m'.world.now = m.world.now := by
  have hbusy : m.runs.isEmpty = false := List.isEmpty_eq_false_iff.mpr hr
  cases e with
  | edit e =>
    rw [next?, hbusy] at h
    cases h
  | change id f =>
    obtain ⟨p, -, rfl⟩ := Option.map_eq_some_iff.mp h
    rfl
  | obey c =>
    cases h
    exact (obey_sameHost hm c).now
  | rewind =>
    rw [next?, hbusy] at h
    cases h
  | _ => exact ((next?_outcome hm h).sameHost rfl ha).now

/-- While a run is going on, the clock does not go back. -/
theorem le_next?_now {m m' : Machine} (hm : m.Tidy) (hr : m.runs ≠ []) {e : Event}
    (h : m.next? e = some m') : m.world.now ≤ m'.world.now := by
  by_cases ha : ∃ time, e = .advance time
  · obtain ⟨time, rfl⟩ := ha
    obtain ⟨hlater, rfl⟩ := next?_advance h
    exact hlater
  · exact (next?_now hm hr h fun time ht => ha ⟨time, ht⟩).ge

theorem Outcome.goes_on {m m' : Machine} {e : Event} (h : Outcome m e m')
    (hcuts : cutsBy m e m' = []) :
    (m.world.running = true → m'.world.running = true) ∧ (m.runs ≠ [] → m'.runs ≠ []) := by
  have hmid {R₁ R₂ : List Run} {r : Run} : R₁ ++ r :: R₂ ≠ [] := by simp
  cases h with
  | host | tick | wakes | rests => exact ⟨id, id⟩
  | join | answer =>
    refine ⟨id, fun hr => ?_⟩
    simpa only [mapRuns, mapWorld, ne_eq, List.map_eq_nil_iff] using hr
  | opens h =>
    refine ⟨fun _ => rfl, fun _ => ?_⟩
    simp [opened]
  | stop => cases hcuts
  | begins | handles => exact ⟨id, fun _ => hmid⟩
  | @resumes R₁ R₂ r l₁ l₂ c c' w' fuel hr hl hc hrun =>
    have hsame := (c.run_same_run r.scripts fuel m.world).2.1
    rw [hrun] at hsame
    refine ⟨fun h => hsame.trans h, fun _ => ?_⟩
    simp
  | finishes hr ho => cases hcuts

/-- A run goes on as long as no sound is cut. -/
theorem next?_goes_on {m m' : Machine} (hm : m.Tidy) {e : Event} (h : m.next? e = some m')
    (hcuts : cutsBy m e m' = []) :
    (m.world.running = true → m'.world.running = true) ∧ (m.runs ≠ [] → m'.runs ≠ []) := by
  have ho := (next?_outcome hm h).goes_on (by rw [cutsBy_asleep, hcuts])
  simpa only [asleep, lanes, ne_eq, List.map_eq_nil_iff] using ho

/-- The chains that the clock overtakes when it moves: they could go on before, or their pause ends
earlier. -/
def overtakenBy (m : Machine) (e : Event) (_ : Machine) : List Chain :=
  match e with
  | .advance time => m.chains.filter fun c => c.canResume m.world || c.due?.any (· < time)
  | _ => []

/-- When no chain can go on, the clock of a session moves no further than to the end of the pause
that ends first. -/
theorem nextTime?_le {s : Session} (hm : s.machine.Tidy)
    (hrest : ∀ c ∈ s.machine.chains, c.canResume s.machine.world = false) {c : Chain}
    (hc : c ∈ s.machine.chains) {due : Nat} (hdue : c.due? = some due) :
    ∃ time, s.nextTime? = some time ∧ time ≤ due := by
  obtain ⟨r, hr, hmem⟩ := List.mem_flatMap.mp hc
  have hdues : due ∈ r.dues := by
    unfold Run.dues
    split
    · rename_i hp
      rw [(hm.runs r hr).waiting _ hp] at hmem
      cases hmem
    · exact List.mem_filterMap.mpr ⟨c, hmem, hdue⟩
  have hlater : s.now < due := by
    have hover := hrest c hc
    unfold Chain.due? at hdue
    split at hdue
    · rename_i ht
      subst hdue
      simp only [Chain.canResume, ht, World.isOver, Option.any_some, Bool.or_eq_false_iff,
        decide_eq_false_iff_not, Nat.not_le] at hover
      exact hover.1.2
    · cases hdue
  have htimer : due ∈ s.machine.runs.flatMap Run.dues := List.mem_flatMap.mpr ⟨r, hr, hdues⟩
  have hlisted (others : List Nat) :
      due ∈ (others ++ s.machine.runs.flatMap Run.dues).filter (s.now < ·) :=
    List.mem_filter.mpr ⟨List.mem_append_right _ htimer, decide_eq_true hlater⟩
  have hsome : s.nextTime?.isSome = true := List.isSome_min?_of_mem (hlisted _)
  obtain ⟨time, htime⟩ := Option.isSome_iff_exists.mp hsome
  exact ⟨time, htime, (List.min?_eq_some_iff.mp htime).2 due (hlisted _)⟩

theorem overtakenBy_nextTime? {s : Session} (hm : s.machine.Tidy)
    (hrest : ∀ c ∈ s.machine.chains, c.canResume s.machine.world = false) {time : Nat}
    (h : s.nextTime? = some time) (m' : Machine) :
    overtakenBy s.machine (.advance time) m' = [] := by
  refine List.filter_eq_nil_iff.mpr fun c hc => ?_
  simp only [hrest c hc, Bool.false_or, Option.any_eq_true, decide_eq_true_eq, not_exists, not_and,
    Nat.not_lt]
  intro due hdue
  obtain ⟨time', htime, hle⟩ := nextTime?_le hm hrest hc hdue
  cases h.symm.trans htime
  exact hle

end Machine

end BlockScript

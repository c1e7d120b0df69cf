import BlockScript.Proofs.Run.Clock

/-! Waiting for a sound. A chain that plays a built-in sound until it is done waits until the sound
ends by itself or all sounds are cut after it began, whichever comes first. -/

namespace BlockScript

theorem soundLength_pos {name : String} {length : Nat} (h : soundLength? name = some length) :
    0 < length := by
  unfold soundLength? at h
  split at h
  · cases h
    decide
  · split at h
    · cases h
      decide
    · cases h

/-- The sound that a chain with this task waits for: when it ends by itself, and how often sounds
had been cut before it began. -/
def Task.playing? (now : Nat) : Task → Option (Nat × Nat)
  | .pause (some length) (.sound g) => some (now + length, g)
  | .wait (.pause (some due) (.sound g)) => some (due, g)
  | _ => none

namespace World

/-- Only the block that plays a sound until it is done waits for one, which has a length. -/
theorem Effect.playing {w w' : World} {sprite : String} {blocks : List Block} {b : Block}
    {depth : Nat} {arg : String → Value} {frame : Option Frame} {task : Task}
    (h : w.Effect sprite blocks b depth arg w' frame task) {wait : Nat × Nat}
    (hw : task.playing? w.now = some wait) : w.now < wait.1 ∧ wait.2 = w.generation := by
  cases h with
  | listens hk hl =>
    cases hw
    exact ⟨Nat.lt_add_of_pos_right (soundLength_pos hl), w.played_generation ..⟩
  | speaks speech seconds => cases hd : milliseconds seconds <;> rw [hd] at hw <;> cases hw
  | delays seconds => cases hd : milliseconds seconds <;> rw [hd] at hw <;> cases hw
  | calls h => cases h <;> cases hw
  | _ => cases hw

theorem Sequel.playing {w w' : World} {sprite : String} {frames frames' : List Frame}
    {going : Bool} {purpose : Purpose} {task : Task}
    (h : w.Sequel sprite frames going purpose w' frames' task) (now : Nat) :
    task.playing? now = none := by
  cases h <;> rfl

end World

namespace Chain

/-- The sound that the chain is about to play until it is done. -/
def plays? (w : World) (c : Chain) : Option String :=
  match c.task with
  | .block _ b depth =>
    if w.running && b.kind == .playSoundUntilDone then
      some ((w.entered c.sprite b depth).read c.sprite b "sound").toText
    else none
  | _ => none

/-- A chain goes on waiting for the sound it waits for, or it begins to wait for one that has a
length and was not yet cut. -/
theorem step_playing {scripts : Table Script} {w : World} {c d : Chain}
    (hd : (c.step scripts w).2 = some d) {wait : Nat × Nat}
    (h : d.task.playing? w.now = some wait) :
    c.task.playing? w.now = some wait ∨ w.now < wait.1 ∧ wait.2 = w.generation := by
  have hs := c.step_transition scripts w
  rw [hd] at hs
  generalize (c.step scripts w).1 = w' at hs
  cases hs with
  | @begins blocks b depth w' frame task ht hr hp =>
    obtain ⟨dice, log, he⟩ := w.entered_eq c.sprite b depth
    rw [he] at hp
    exact .inr ((World.Effect.of_perform hp).playing h)
  | @waits duration purpose ht =>
    left
    rw [ht]
    cases duration with
    | none => cases h
    | some length =>
      cases purpose with
      | sound g => exact h
      | _ => cases h
  | hurries ht hd hq | wakes ht hd hq =>
    rw [hq.playing] at h
    cases h
  | stays => exact .inl h
  | _ => cases h

theorem step_plays {w : World} {c : Chain} {name : String} (h : c.plays? w = some name)
    (scripts : Table Script) :
    w.running = true ∧ c.cuts w = false ∧ ∃ d, (c.step scripts w).2 = some d ∧
      d.task = match soundLength? name with
        | some length => .pause (some length) (.sound w.generation)
        | none => .resume := by
  unfold plays? at h
  split at h
  · rename_i blocks b depth ht
    split at h
    · rename_i hb
      cases h
      obtain ⟨hr, hkind⟩ := Bool.and_eq_true_iff.mp hb
      have hkind := beq_iff_eq.mp hkind
      refine ⟨hr, by simp [cuts, ht, hkind], ?_⟩
      rw [step_entered ht hr]
      refine ⟨_, rfl, ?_⟩
      have hnote (v : World) (r : Record) :
          (if v.services.tracksSounds then v.note r else v).generation = v.generation := by
        split <;> rfl
      simp only [World.perform, hkind]
      cases soundLength? ((w.entered c.sprite b depth).read c.sprite b "sound").toText with
      | none => rfl
      | some length => simp only [hnote, World.entered_generation]
    · cases h
  · cases h

theorem run_pause {w : World} {c : Chain} {length generation : Nat}
    (ht : c.task = .pause (some length) (.sound generation)) (hr : w.running = true)
    (hlength : length ≠ 0) (scripts : Table Script) (fuel : Nat) :
    (c.run scripts fuel w).1 = w ∧ ∃ d, (c.run scripts fuel w).2 = some d ∧
      d.task.playing? w.now = some (w.now + length, generation) := by
  cases fuel with
  | zero =>
    refine ⟨rfl, c, rfl, ?_⟩
    rw [ht]
    rfl
  | succ fuel =>
    have hstep : c.step scripts w = (w, some
        { c with task := .wait (.pause (some (w.now + length)) (.sound generation)) }) := by
      simp [step, ht, hr, hlength]
    rw [run, hstep]
    exact ⟨rfl, _, rfl, rfl⟩

/-- A chain that plays a built-in sound until it is done ends its resumption waiting for it. -/
theorem moments_plays {scripts : Table Script} {fuel : Nat} {w v : World} {c d : Chain}
    (hmoment : (v, d) ∈ c.moments scripts fuel w) {name : String} (hplays : d.plays? v = some name)
    {length : Nat} (hlength : soundLength? name = some length) :
    (c.run scripts fuel w).1.running = true ∧ (c.run scripts fuel w).1.generation = v.generation ∧
      ∃ d', (c.run scripts fuel w).2 = some d' ∧
        d'.task.playing? w.now = some (w.now + length, v.generation) := by
  induction fuel generalizing w c with
  | zero => cases hmoment
  | succ fuel ih =>
    have hnow := (step_cases scripts w c).sameHost.now
    rw [moments, List.mem_cons] at hmoment
    rw [run]
    rcases hmoment with heq | hmoment
    · cases heq
      obtain ⟨hr, hcuts, e, he, htask⟩ := step_plays hplays scripts
      have hrunning := (step_same_run scripts v d).2.1.trans hr
      have hgeneration := step_generation scripts v d
      rw [hlength] at htask
      rw [hcuts] at hgeneration
      generalize d.step scripts v = p at he hnow hrunning hgeneration
      obtain ⟨v', _ | e'⟩ := p
      · cases he
      · cases he
        have hawake : e.isWaiting = false := by simp [isWaiting, htask]
        have hlasts := (soundLength_pos hlength).ne'
        obtain ⟨hworld, hwait⟩ := run_pause htask hrunning hlasts scripts fuel
        simp only at hnow hgeneration
        rw [hnow] at hwait
        simp only [hawake, Bool.false_eq_true, if_false, hworld]
        exact ⟨hrunning, hgeneration, hwait⟩
    · generalize c.step scripts w = p at hnow hmoment
      obtain ⟨w', _ | e⟩ := p
      · cases hmoment
      · simp only at hnow hmoment ⊢
        split at hmoment
        · cases hmoment
        · rename_i hawake
          rw [if_neg hawake, ← hnow]
          exact ih hmoment

/-- A chain that waits for no sound gets to wait only for one that begins now. -/
theorem run_playing {w : World} {c : Chain} (hc : c.task.playing? w.now = none)
    (scripts : Table Script) (fuel : Nat) {d : Chain} (hd : (c.run scripts fuel w).2 = some d)
    {wait : Nat × Nat} (hwait : d.task.playing? w.now = some wait) :
    w.now < wait.1 ∧ w.generation ≤ wait.2 := by
  have hnew : (c.run scripts fuel w).1.now = w.now ∧
      w.generation ≤ (c.run scripts fuel w).1.generation ∧
      ∀ d ∈ (c.run scripts fuel w).2, ∀ wait, d.task.playing? w.now = some wait →
        w.now < wait.1 ∧ w.generation ≤ wait.2 := by
    refine run_induction (P := fun v e => v.now = w.now ∧ w.generation ≤ v.generation ∧
      ∀ d ∈ e, ∀ wait, d.task.playing? w.now = some wait →
        w.now < wait.1 ∧ w.generation ≤ wait.2) ?_ ?_ fuel
    · rintro v e ⟨hnow, hgeneration, hold⟩
      have hcount := step_generation scripts v e
      refine ⟨(step_cases scripts v e).sameHost.now.trans hnow, by omega, fun d hd wait hwait => ?_⟩
      rw [← hnow] at hwait
      rcases step_playing hd hwait with hsame | ⟨hlate, hother⟩
      · rw [hnow] at hsame
        exact hold e rfl wait hsame
      · omega
    · refine ⟨rfl, Nat.le_refl _, ?_⟩
      rintro d hd wait hwait
      cases hd
      rw [hc] at hwait
      cases hwait
  exact hnew.2.2 d hd wait hwait

/-- The turn that ends a wait for a sound leads to no wait like it. -/
theorem run_leaves {w : World} {c : Chain} {wait : Nat × Nat}
    (ht : c.task = .wait (.pause (some wait.1) (.sound wait.2)))
    (hover : wait.1 ≤ w.now ∨ wait.2 < w.generation) (scripts : Table Script) (fuel : Nat)
    {d : Chain} (hd : (c.run scripts (fuel + 1) w).2 = some d) :
    d.task.playing? w.now ≠ some wait := by
  have hstep : c.step scripts w = (w, some { c with task := .resume }) := by
    have hend : w.isOver (.pause (some wait.1) (.sound wait.2)) = true := by
      rcases hover with hlate | hcut
      · simp [World.isOver, hlate]
      · simp [World.isOver, hcut.ne]
    simp only [step, ht, hend, if_true, World.afterPause]
  rw [run, hstep] at hd
  intro hsame
  have hnew := run_playing (c := { c with task := .resume }) rfl scripts fuel hd hsame
  omega

end Chain

theorem Task.of_playing? {now : Nat} {t : Task} {wait : Nat × Nat}
    (h : t.playing? now = some wait) :
    (∃ length, t = .pause (some length) (.sound wait.2) ∧ wait.1 = now + length) ∨
      t = .wait (.pause (some wait.1) (.sound wait.2)) := by
  unfold Task.playing? at h
  split at h
  · cases h
    exact .inl ⟨_, rfl, rfl⟩
  · cases h
    exact .inr rfl
  · cases h

/-- When a sound is over that ends by itself at `due`, if all sounds were cut at the times `cuts`
since it began. -/
def soundEnd (due : Nat) (cuts : List Nat) : Nat :=
  cuts.head?.elim due (min due)

theorem soundEnd_cons_le (due cut : Nat) (cuts : List Nat) : soundEnd due (cut :: cuts) ≤ cut :=
  Nat.min_le_right ..

theorem soundEnd_append {cuts : List Nat} (h : cuts ≠ []) (due : Nat) (later : List Nat) :
    soundEnd due (cuts ++ later) = soundEnd due cuts := by
  obtain ⟨cut, rest, rfl⟩ := List.exists_cons_of_ne_nil h
  rfl

namespace Machine

/-- The sound that a chain waits for. -/
def playing? (m : Machine) (call id : Nat) : Option (Nat × Nat) :=
  (m.chain? call id).bind (·.task.playing? m.world.now)

/-- A chain, if the clock moves in the middle of its turn. -/
def interruptedBy (call id : Nat) (m : Machine) (e : Event) (_ : Machine) : List Chain :=
  match e with
  | .advance _ => ((m.chain? call id).filter fun c => !c.isWaiting).toList
  | _ => []

/-- The times at which a chain leaves the wait `wait` for a sound in an event. -/
def leavesBy (call id : Nat) (wait : Nat × Nat) (m : Machine) (_ : Event) (m' : Machine) :
    List Nat :=
  if m.playing? call id = some wait ∧ m'.playing? call id ≠ some wait then [m.world.now] else []

theorem playing?_eq_some_iff {m : Machine} {call id : Nat} {wait : Nat × Nat} :
    m.playing? call id = some wait ↔
      ∃ c, m.chain? call id = some c ∧ c.task.playing? m.world.now = some wait :=
  Option.bind_eq_some_iff

theorem next?_chain? {m m' : Machine} (hm : m.Tidy) {e : Event} (h : m.next? e = some m')
    {call id : Nat} {c : Chain} (hc : m.chain? call id = some c) (hask : c.ask? = none)
    (he : ∀ fuel, e ≠ .resumeChain fuel call id) : m'.chain? call id = some c := by
  have hone : m.after [e] = some m' := after_cons_iff.mpr ⟨m', h, rfl⟩
  refine after_chain? hm hc hask hone fun fuel => ?_
  simpa using (he fuel).symm

theorem runs_of_playing? {m : Machine} {call id : Nat} {wait : Nat × Nat}
    (h : m.playing? call id = some wait) : m.runs ≠ [] := by
  intro hr
  obtain ⟨c, hc, -⟩ := playing?_eq_some_iff.mp h
  have hmem := mem_chains_of_chain? hc
  rw [chains, hr] at hmem
  cases hmem

/-- As long as a sound plays, the chain that waits for it stays where it is. -/
theorem next?_playing {m m' : Machine} (hm : m.Tidy) {e : Event} (h : m.next? e = some m')
    (ha : ∀ time, e ≠ .advance time) {call id : Nat} {wait : Nat × Nat}
    (hplaying : m.playing? call id = some wait) (hearly : m.world.now < wait.1)
    (hrunning : m.world.running = true) (hcount : m.world.generation = wait.2) :
    m'.playing? call id = some wait := by
  obtain ⟨c, hc, hwait⟩ := playing?_eq_some_iff.mp hplaying
  have hnow := next?_now hm (runs_of_playing? hplaying) h ha
  -- It is enough to find a chain with the same wait.
  suffices hfound : ∃ d, m'.chain? call id = some d ∧ d.task.playing? m.world.now = some wait by
    rw [playing?_eq_some_iff, hnow]
    exact hfound
  by_cases he : ∃ fuel, e = .resumeChain fuel call id
  · obtain ⟨fuel, rfl⟩ := he
    cases h
    rcases Task.of_playing? hwait with ⟨length, ht, hdue⟩ | ht
    · have hgo : c.canResume m.world = true := by simp [Chain.canResume, ht]
      obtain ⟨scripts, hresume⟩ := resumeChain_chain? hm hc hgo
      obtain ⟨-, d, hd, hwait'⟩ := Chain.run_pause ht hrunning (by omega) scripts fuel
      refine ⟨d, (hresume fuel).2.trans hd, ?_⟩
      rw [hwait', hdue.symm]
    · have hrest : c.canResume m.world = false := by
        simp [Chain.canResume, ht, World.isOver, hrunning, hearly, hcount]
      have hidle : ∀ d ∈ m.chain? call id, d.canResume m.world = false := by
        rintro d hd
        cases hc.symm.trans hd
        exact hrest
      have hsame := resumeChain_idle hm hidle fuel
      rw [← chain?_asleep, hsame, chain?_asleep]
      exact ⟨c, hc, hwait⟩
  · have hask : c.ask? = none := by
      rcases Task.of_playing? hwait with ⟨length, ht, -⟩ | ht <;> simp [Chain.ask?, ht]
    exact ⟨c, next?_chain? hm h hc hask fun fuel hf => he ⟨fuel, hf⟩, hwait⟩

/-- A chain waits for a sound. Since it began, all sounds were cut at the times `cuts`, and the
clock overtook the chains `late`. -/
structure Waits (m : Machine) (call id : Nat) (wait : Nat × Nat) (cuts : List Nat)
    (late : List Chain) : Prop where
  playing : m.playing? call id = some wait
  count : m.world.generation = wait.2 + cuts.length
  cut : ∀ time ∈ cuts.head?, time ≤ m.world.now
  running : cuts = [] → m.world.running = true
  early : late = [] → m.world.now ≤ soundEnd wait.1 cuts

/-- A chain has left its wait for a sound at `time`. -/
structure Left (m : Machine) (wait : Nat × Nat) (cuts : List Nat) (late : List Chain)
    (time : Nat) : Prop where
  ended : soundEnd wait.1 cuts ≤ time
  prompt : late = [] → time = soundEnd wait.1 cuts
  passed : cuts = [] → wait.1 ≤ m.world.now ∧ m.runs ≠ []

section

variable {m m' : Machine} {e : Event} {call id : Nat} {wait : Nat × Nat} {cuts : List Nat}
  {late : List Chain}

/-- The chain can go on exactly when its sound is over. -/
theorem Waits.canResume_iff (h : m.Waits call id wait cuts late) {c : Chain}
    (ht : c.task = .wait (.pause (some wait.1) (.sound wait.2))) :
    c.canResume m.world = true ↔ soundEnd wait.1 cuts ≤ m.world.now := by
  have hover : c.canResume m.world = true ↔
      m.world.running = false ∨ wait.1 ≤ m.world.now ∨ wait.2 ≠ m.world.generation := by
    simp [Chain.canResume, ht, World.isOver, or_assoc]
  have hcount := h.count
  rw [hover]
  cases cuts with
  | nil =>
    have hend : soundEnd wait.1 [] = wait.1 := rfl
    simp only [h.running rfl, hcount, hend, List.length_nil, Nat.add_zero, Bool.true_eq_false,
      ne_eq, not_true, false_or, or_false]
  | cons cut rest =>
    rw [List.length_cons] at hcount
    refine iff_of_true (.inr (.inr (by omega))) ?_
    exact (soundEnd_cons_le ..).trans (h.cut cut rfl)

/-- The turn that the chain takes when its sound is over ends the wait. -/
theorem Waits.resume_leaves (hm : m.Tidy) (h : m.Waits call id wait cuts late) {c : Chain}
    (hc : m.chain? call id = some c) (ht : c.task = .wait (.pause (some wait.1) (.sound wait.2)))
    (hend : soundEnd wait.1 cuts ≤ m.world.now) (fuel : Nat) :
    (m.resumeChain (fuel + 1) call id).1.playing? call id ≠ some wait := by
  obtain ⟨scripts, hresume⟩ := resumeChain_chain? hm hc ((h.canResume_iff ht).mpr hend)
  obtain ⟨hworld, hchain⟩ := hresume (fuel + 1)
  have hover : wait.1 ≤ m.world.now ∨ wait.2 < m.world.generation := by
    by_cases hcuts : cuts = []
    · subst hcuts
      exact .inl hend
    · have hlength := List.length_pos_of_ne_nil hcuts
      exact .inr (by rw [h.count]; omega)
  have hnow : (m.resumeChain (fuel + 1) call id).1.world.now = m.world.now := by
    rw [hworld]
    exact (c.run_sameHost scripts (fuel + 1) m.world).now
  intro hplaying
  obtain ⟨d, hd, hwait⟩ := playing?_eq_some_iff.mp hplaying
  rw [hnow] at hwait
  exact Chain.run_leaves ht hover scripts fuel (hchain.symm.trans hd) hwait

theorem Waits.advance {time : Nat} (h : m.Waits call id wait cuts late)
    (he : m.next? (.advance time) = some m')
    (hclock : interruptedBy call id m (.advance time) m' = []) :
    m'.Waits call id wait cuts (late ++ overtakenBy m (.advance time) m') := by
  obtain ⟨c, hc, hwait⟩ := playing?_eq_some_iff.mp h.playing
  have hmem := mem_chains_of_chain? hc
  have hwaiting : c.isWaiting = true := by
    simpa [interruptedBy, hc] using hclock
  have ht : c.task = .wait (.pause (some wait.1) (.sound wait.2)) := by
    rcases Task.of_playing? hwait with ⟨length, ht, -⟩ | ht
    · simp [Chain.isWaiting, ht] at hwaiting
    · exact ht
  obtain ⟨hlater, rfl⟩ := next?_advance he
  refine ⟨?_, h.count, fun cut hcut => (h.cut cut hcut).trans hlater, h.running, fun hlate => ?_⟩
  · refine playing?_eq_some_iff.mpr ⟨c, hc, ?_⟩
    rw [ht]
    rfl
  · -- The chain was not overtaken, so its sound was not over.
    have hpunctual := List.filter_eq_nil_iff.mp (List.append_eq_nil_iff.mp hlate).2 c hmem
    simp only [Bool.or_eq_true, not_or, h.canResume_iff ht, Chain.due?, ht, Option.any_some,
      decide_eq_true_eq, Nat.not_le, Nat.not_lt] at hpunctual
    cases cuts with
    | nil => exact hpunctual.2
    | cons cut rest =>
      have hcut := (soundEnd_cons_le wait.1 cut rest).trans (h.cut cut rfl)
      exact absurd hcut hpunctual.1.not_ge

theorem Waits.cut_by (h : m.Waits call id wait cuts late) (e : Event) (m' : Machine) :
    ∀ time ∈ (cuts ++ cutsBy m e m').head?, time ≤ m.world.now := by
  intro time ht
  rw [List.head?_append] at ht
  rcases Option.or_eq_some_iff.mp ht with ht | ⟨-, ht⟩
  · exact h.cut time ht
  · exact (now_of_mem_cutsBy (List.mem_of_mem_head? ht)).le

theorem Waits.early_by (h : m.Waits call id wait cuts late) (hlate : late = []) (e : Event)
    (m' : Machine) : m.world.now ≤ soundEnd wait.1 (cuts ++ cutsBy m e m') := by
  have hearly := h.early hlate
  by_cases hcuts : cuts = []
  · subst hcuts
    cases hnew : cutsBy m e m' with
    | nil => exact hearly
    | cons cut rest =>
      have hcut : cut = m.world.now := now_of_mem_cutsBy (hnew ▸ List.mem_cons_self)
      exact Nat.le_min.mpr ⟨hearly, hcut.ge⟩
  · rwa [soundEnd_append hcuts]

theorem Waits.next (hm : m.Tidy) (h : m.Waits call id wait cuts late) (he : m.next? e = some m')
    (hclock : interruptedBy call id m e m' = []) :
    m'.playing? call id = some wait ∧
        m'.Waits call id wait (cuts ++ cutsBy m e m') (late ++ overtakenBy m e m') ∨
      m'.playing? call id ≠ some wait ∧
        m'.Left wait (cuts ++ cutsBy m e m') (late ++ overtakenBy m e m') m.world.now := by
  by_cases ha : ∃ time, e = .advance time
  · obtain ⟨time, rfl⟩ := ha
    have hwaits := h.advance he hclock
    have hnone : cutsBy m (.advance time) m' = [] := rfl
    rw [hnone, List.append_nil]
    exact .inl ⟨hwaits.playing, hwaits⟩
  · have ha : ∀ time, e ≠ .advance time := fun time ht => ha ⟨time, ht⟩
    have hnow := next?_now hm (runs_of_playing? h.playing) he ha
    have hhead := h.cut_by e m'
    have hearly : late ++ overtakenBy m e m' = [] →
        m.world.now ≤ soundEnd wait.1 (cuts ++ cutsBy m e m') := fun hlate =>
      h.early_by (List.append_eq_nil_iff.mp hlate).1 e m'
    by_cases hplaying : m'.playing? call id = some wait
    · refine .inl ⟨hplaying, hplaying, ?_, by rwa [hnow], fun hnone => ?_, by rwa [hnow]⟩
      · rw [next?_generation hm he, h.count, List.length_append, Nat.add_assoc]
      · obtain ⟨hcuts, hnew⟩ := List.append_eq_nil_iff.mp hnone
        exact (next?_goes_on hm he hnew).1 (h.running hcuts)
    · have hover : cuts ++ cutsBy m e m' = [] → wait.1 ≤ m.world.now := by
        intro hnone
        obtain ⟨rfl, -⟩ := List.append_eq_nil_iff.mp hnone
        by_contra hplays
        exact hplaying
          (next?_playing hm he ha h.playing (Nat.lt_of_not_le hplays) (h.running rfl) h.count)
      have hended : soundEnd wait.1 (cuts ++ cutsBy m e m') ≤ m.world.now := by
        cases hnew : cuts ++ cutsBy m e m' with
        | nil => exact hover hnew
        | cons cut rest =>
          rw [hnew] at hhead
          exact (soundEnd_cons_le ..).trans (hhead cut rfl)
      refine .inr ⟨hplaying, hended, fun hlate => (hearly hlate).antisymm hended, fun hnone => ?_⟩
      obtain ⟨-, hnew⟩ := List.append_eq_nil_iff.mp hnone
      rw [hnow]
      exact ⟨hover hnone, (next?_goes_on hm he hnew).2 (runs_of_playing? h.playing)⟩

/-- A cut after the end of the sound comes too late to matter. -/
theorem Left.soundEnd_by {time : Nat} (h : m.Left wait cuts late time) (e : Event)
    (m' : Machine) : soundEnd wait.1 (cuts ++ cutsBy m e m') = soundEnd wait.1 cuts := by
  by_cases hcuts : cuts = []
  · subst hcuts
    cases hnew : cutsBy m e m' with
    | nil => rfl
    | cons cut rest =>
      have hcut : cut = m.world.now := now_of_mem_cutsBy (hnew ▸ List.mem_cons_self)
      rw [hcut]
      exact Nat.min_eq_left (h.passed rfl).1
  · exact soundEnd_append hcuts ..

theorem Left.next {time : Nat} (hm : m.Tidy) (h : m.Left wait cuts late time)
    (he : m.next? e = some m') :
    m'.Left wait (cuts ++ cutsBy m e m') (late ++ overtakenBy m e m') time := by
  have hsame := h.soundEnd_by e m'
  refine ⟨hsame.trans_le h.ended, fun hlate => ?_, fun hnone => ?_⟩
  · rw [hsame]
    exact h.prompt (List.append_eq_nil_iff.mp hlate).1
  · obtain ⟨hcuts, hnew⟩ := List.append_eq_nil_iff.mp hnone
    obtain ⟨hover, hruns⟩ := h.passed hcuts
    exact ⟨hover.trans (le_next?_now hm hruns he), (next?_goes_on hm he hnew).2 hruns⟩

end

/-- Until the chain leaves, `Waits` holds of what has happened; from then on, `Left` does. -/
theorem Waits.after {m₁ m : Machine} {call id : Nat} {wait : Nat × Nat} (hm₁ : m₁.Tidy)
    (h : m₁.Waits call id wait [] []) {es : List Event} (hes : m₁.after es = some m)
    (hclock : m₁.gather (interruptedBy call id) es = []) :
    m₁.gather (leavesBy call id wait) es = [] ∧
        m.Waits call id wait (m₁.gather cutsBy es) (m₁.gather overtakenBy es) ∨
      ∃ time, (m₁.gather (leavesBy call id wait) es).head? = some time ∧
        m.Left wait (m₁.gather cutsBy es) (m₁.gather overtakenBy es) time := by
  refine after_induction (P := fun es m => m₁.gather (interruptedBy call id) es = [] →
    (m₁.gather (leavesBy call id wait) es = [] ∧
        m.Waits call id wait (m₁.gather cutsBy es) (m₁.gather overtakenBy es) ∨
      ∃ time, (m₁.gather (leavesBy call id wait) es).head? = some time ∧
        m.Left wait (m₁.gather cutsBy es) (m₁.gather overtakenBy es) time))
    (fun _ => .inl ⟨rfl, h⟩) ?_ hes hclock
  intro es m e m' hes ih he hclock
  have hm := hm₁.after hes
  rw [gather_snoc hes he] at hclock
  obtain ⟨hbefore, hnext⟩ := List.append_eq_nil_iff.mp hclock
  simp only [gather_snoc hes he]
  rcases ih hbefore with ⟨hnone, hwaits⟩ | ⟨time, htime, hleft⟩
  · rw [hnone, List.nil_append]
    rcases hwaits.next hm he hnext with ⟨hplaying, hwaits'⟩ | ⟨hplaying, hleft⟩
    · exact .inl ⟨if_neg fun hleaves => hleaves.2 hplaying, hwaits'⟩
    · refine .inr ⟨m.world.now, ?_, hleft⟩
      rw [leavesBy, if_pos ⟨hwaits.playing, hplaying⟩]
      rfl
  · refine .inr ⟨time, ?_, hleft.next hm he⟩
    rw [List.head?_append, htime]
    rfl

theorem next?_plays {m m' : Machine} (hm : m.Tidy) {fuel call id : Nat}
    (h : m.next? (.resumeChain fuel call id) = some m') {w : World} {c : Chain}
    (hmoment : (w, c) ∈ momentsBy call id m (.resumeChain fuel call id) m') {name : String}
    (hplays : c.plays? w = some name) {length : Nat} (hlength : soundLength? name = some length) :
    m'.Waits call id (w.now + length, w.generation) [] [] := by
  cases h
  rw [momentsBy_resumeChain] at hmoment
  split at hmoment
  · rename_i scripts d hd
    obtain ⟨rfl, hgo, r, hr, rfl, rfl, hmem⟩ := of_resumable? hd
    obtain ⟨hworld, hchain⟩ := resumeChain_of_mem hm hr hmem hgo fuel
    obtain ⟨hrunning, hgeneration, e, he, hwait⟩ := Chain.moments_plays hmoment hplays hlength
    have hnow := Chain.moments_now _ _ _ _ _ hmoment
    have hafter : (m.resumeChain fuel r.call d.id).1.world.now = w.now := by
      rw [hworld, hnow]
      exact (d.run_sameHost r.scripts fuel m.world).now
    refine ⟨playing?_eq_some_iff.mpr ⟨e, hchain.trans he, ?_⟩, ?_, nofun, fun _ => ?_, fun _ => ?_⟩
    · rw [hafter, hnow]
      exact hwait
    · rw [hworld]
      exact hgeneration
    · rw [hworld]
      exact hrunning
    · rw [hafter]
      exact Nat.le_add_right ..
  · cases hmoment

/-- A chain that plays a built-in sound until it is done leaves its wait at the end of the sound or
at the first time that all sounds are cut after the sound began, whichever comes first: never
earlier, and no later unless the clock overtakes a chain. A name that no sound has makes no wait. -/
theorem sound_wait_ends_on_time {m₀ m₁ : Machine} (h : m₀.Reachable) {fuel call id : Nat}
    (hstart : m₀.next? (.resumeChain fuel call id) = some m₁) {w : World} {c : Chain}
    (hmoment : (w, c) ∈ momentsBy call id m₀ (.resumeChain fuel call id) m₁) {name : String}
    (hplays : c.plays? w = some name) :
    (soundLength? name = none → ∀ scripts, ∃ d, (c.step scripts w).2 = some d ∧ d.task = .resume) ∧
      ∀ length, soundLength? name = some length →
        let wait := (w.now + length, w.generation)
        m₁.playing? call id = some wait ∧ m₁.world.generation = w.generation ∧
          ∀ es m, m₁.after es = some m → m₁.gather (interruptedBy call id) es = [] →
            let leaves := m₁.gather (leavesBy call id wait) es
            let late := m₁.gather overtakenBy es
            let ends := soundEnd wait.1 (m₁.gather cutsBy es)
            (∀ time ∈ leaves.head?, ends ≤ time ∧ (late = [] → time = ends)) ∧
              (leaves = [] →
                m.playing? call id = some wait ∧ (late = [] → m.world.now ≤ ends) ∧
                  ∀ d, m.chain? call id = some d → d.isWaiting = true →
                    (d.canResume m.world = true ↔ ends ≤ m.world.now) ∧
                    (ends ≤ m.world.now → ∀ fuel,
                      (m.resumeChain (fuel + 1) call id).1.playing? call id ≠ some wait)) := by
  refine ⟨fun hnone scripts => ?_, fun length hlength => ?_⟩
  · obtain ⟨-, -, d, hd, ht⟩ := Chain.step_plays hplays scripts
    rw [hnone] at ht
    exact ⟨d, hd, ht⟩
  intro wait
  have hwaits : m₁.Waits call id wait [] [] := next?_plays h.tidy hstart hmoment hplays hlength
  have hm₁ := (h.next hstart).tidy
  refine ⟨hwaits.playing, hwaits.count, fun es m hes hclock => ?_⟩
  rcases hwaits.after hm₁ hes hclock with ⟨hnone, hwaits⟩ | ⟨time, htime, hleft⟩
  · simp only [hnone]
    refine ⟨nofun, fun _ => ⟨hwaits.playing, hwaits.early, fun d hd hwaiting => ?_⟩⟩
    obtain ⟨d', hd', hwait⟩ := playing?_eq_some_iff.mp hwaits.playing
    cases hd.symm.trans hd'
    rcases Task.of_playing? hwait with ⟨_, ht, -⟩ | ht
    · simp [Chain.isWaiting, ht] at hwaiting
    · exact ⟨hwaits.canResume_iff ht, hwaits.resume_leaves (hm₁.after hes) hd ht⟩
  · refine ⟨fun time' htime' => ?_, fun hnone => ?_⟩
    · cases htime.symm.trans htime'
      exact ⟨hleft.ended, hleft.prompt⟩
    · rw [hnone] at htime
      cases htime

/-- One chain plays a sound until it is done, and another one cuts all sounds twice. -/
def cutting : Script :=
  ⟨[.create "a" .whenFlagClicked ⟨0, 0⟩, .create "b" .playSoundUntilDone ⟨0, 40⟩,
    .create "c" .whenFlagClicked ⟨300, 0⟩, .create "d" .stopSounds ⟨300, 40⟩,
    .create "e" .stopSounds ⟨300, 80⟩], 5⟩

/-- All sounds are cut just before the sound begins, and once more while it plays. -/
def beforeSound : List Event :=
  [.edit (.addSprite "🐱"), .edit (.editScript "sprite-1" fun _ => .ok (cutting, ())), .obey .flag,
    .advance 50, .beginRun 0, .resumeChain 9 0 2]

def duringSound : List Event :=
  [.advance 100, .resumeChain 9 0 2, .resumeChain 9 0 1]

theorem sound_wait_ends_on_time_cutting :
    ∃ m₀ m₁ m : Machine, m₀.Reachable ∧ m₀.next? (.resumeChain 9 0 1) = some m₁ ∧
      m₁.after duringSound = some m ∧ ∃ p ∈ momentsBy 0 1 m₀ (.resumeChain 9 0 1) m₁,
        p.2.plays? p.1 = some "Laser" ∧ m₁.gather cutsBy duringSound = [100] ∧
        m₁.gather (leavesBy 0 1 (p.1.now + 200, p.1.generation)) duringSound = [100] := by
  have he : ((create .empty {} {}).after beforeSound).bind (fun m₀ =>
      (m₀.next? (.resumeChain 9 0 1)).bind fun m₁ => (m₁.after duringSound).bind fun m =>
        ((momentsBy 0 1 m₀ (.resumeChain 9 0 1) m₁).find? fun p =>
          p.2.plays? p.1 = some "Laser").map fun p =>
            (p.1.now, (m₁.gather (interruptedBy 0 1) duringSound).length,
              (m₁.gather overtakenBy duringSound).length, m₁.gather cutsBy duringSound,
              (m₁.gather (leavesBy 0 1 (p.1.now + 200, p.1.generation)) duringSound).length)) =
      some (50, 0, 0, [100], 1) := by
    decide +kernel
  obtain ⟨m₀, hm₀, he⟩ := Option.bind_eq_some_iff.mp he
  obtain ⟨m₁, hm₁, he⟩ := Option.bind_eq_some_iff.mp he
  obtain ⟨m, hm, he⟩ := Option.bind_eq_some_iff.mp he
  obtain ⟨p, hp, he⟩ := Option.map_eq_some_iff.mp he
  simp only [Prod.mk.injEq, List.length_eq_zero_iff] at he
  obtain ⟨htime, hturns, hclock, hcuts, hleaves⟩ := he
  have hmoment := List.mem_of_find?_eq_some hp
  have hplays : p.2.plays? p.1 = some "Laser" := by simpa using List.find?_some hp
  have hreachable : m₀.Reachable := ⟨{}, {}, beforeSound, hm₀⟩
  obtain ⟨-, hwait⟩ := sound_wait_ends_on_time hreachable hm₁ hmoment hplays
  obtain ⟨-, -, hends⟩ := hwait 200 (by decide)
  obtain ⟨hleft, -⟩ := hends duringSound m hm hturns
  obtain ⟨time, hleaves⟩ := List.length_eq_one_iff.mp hleaves
  rw [hcuts, hleaves] at hleft
  have hend := (hleft time rfl).2 hclock
  rw [htime] at hend
  refine ⟨m₀, m₁, m, hreachable, hm₁, hm, p, hmoment, hplays, hcuts, ?_⟩
  rw [hleaves, hend]
  rfl

end Machine

end BlockScript

import BlockScript.Proofs.Run.Answer

/-! Wake-ups are never lost. Whatever ends the wait of a chain makes it ready in its run, so that no
chain can go on once no run can. -/

namespace BlockScript

namespace World

/-- The same waits are over. -/
structure SameWaits (w w' : World) : Prop where
  running : w'.running = w.running
  now : w'.now = w.now
  generation : w'.generation = w.generation

end World

namespace Chain

theorem canResume_iff {w : World} {c : Chain} :
    c.canResume w = true ↔ c.isWaiting = false ∨ c.reply?.isSome = true ∨
      c.isPausing = true ∧ (w.running = false ∨ c.due?.any (· ≤ w.now) = true ∨
        c.hearsCut w.generation = true) := by
  unfold canResume isWaiting reply? isPausing due? hearsCut
  cases c.task with
  | wait wait =>
    cases wait with
    | pause due purpose => cases purpose <;> simp [World.isOver, or_assoc]
    | reply ask answer => cases answer <;> simp [World.isOver]
  | _ => simp

theorem canResume_congr {w w' : World} (h : w.SameWaits w') (c : Chain) :
    c.canResume w' = c.canResume w := by
  rw [Bool.eq_iff_iff, canResume_iff, canResume_iff, h.running, h.now, h.generation]

/-- A turn ends no wait of another chain, unless it cuts the sound that the chain waits for. -/
theorem canResume_after {w w' : World} (hrunning : w'.running = w.running) (hnow : w'.now = w.now)
    {c : Chain} (h : c.canResume w' = true) :
    c.canResume w = true ∨ c.hearsCut w'.generation = true := by
  rw [canResume_iff, hrunning, hnow] at h
  rw [canResume_iff]
  tauto

theorem canResume_going {w w' : World} (hrunning : w'.running = true) (hnow : w'.now = w.now)
    (hcuts : w'.generation = w.generation) {c : Chain} (h : c.canResume w' = true) :
    c.canResume w = true := by
  rw [canResume_iff, hrunning, hnow, hcuts] at h
  rw [canResume_iff]
  tauto

/-- A chain that waits when its turn is over goes on waiting, unless all sounds were cut while it
was about to wait for one. -/
theorem step_rests {scripts : Table Script} {w : World} {c d : Chain} (hc : c.canResume w = true)
    (hd : (c.step scripts w).2 = some d) (hwait : d.isWaiting = true)
    (hgo : d.canResume (c.step scripts w).1 = true) :
    d.hearsCut (c.step scripts w).1.generation = true := by
  have hs := c.step_transition scripts w
  rw [hd] at hs
  generalize (c.step scripts w).1 = w' at hs hgo
  cases hs with
  | @begins blocks b depth w' frame task ht hr hp =>
    cases World.Effect.of_perform hp with
    | asks question => cases hgo
    | calls h => cases h <;> cases hwait
    | _ => cases hwait
  | @waits duration purpose ht hr hlong =>
    have hearly : (duration.map (w.now + ·)).any (· ≤ w.now) = false := by
      cases duration with
      | none => rfl
      | some n =>
        have hn : n ≠ 0 := fun hn => hlong (congrArg some hn)
        simp only [Option.map_some, Option.any_some, decide_eq_false_iff_not]
        omega
    rw [canResume_iff] at hgo
    rcases hgo with hawake | hreply | ⟨-, hstop | hdue | hcut⟩
    · cases hawake.symm.trans hwait
    · cases hreply
    · cases hstop.symm.trans hr
    · cases hearly.symm.trans hdue
    · exact hcut
  | hurries ht hd hq => cases hq <;> cases hwait
  | wakes ht ho hq => cases hq <;> cases hwait
  | stays ht ho => simp [canResume, ht, ho] at hc
  | _ => cases hwait

theorem run_rests {scripts : Table Script} {fuel : Nat} {w : World} {c d : Chain}
    (hc : c.canResume w = true) (hfuel : fuel = 0 → c.isWaiting = false)
    (hd : (c.run scripts fuel w).2 = some d) (hwait : d.isWaiting = true)
    (hgo : d.canResume (c.run scripts fuel w).1 = true) :
    d.hearsCut (c.run scripts fuel w).1.generation = true := by
  induction fuel generalizing w c with
  | zero =>
    cases hd
    cases (hfuel rfl).symm.trans hwait
  | succ fuel ih =>
    have hs := @step_rests scripts w c d hc
    rw [run] at hd hgo ⊢
    generalize c.step scripts w = p at hs hd hgo ⊢
    obtain ⟨w', _ | e⟩ := p
    · cases hd
    · simp only at hs hd hgo ⊢
      by_cases he : e.isWaiting = true
      · rw [if_pos he] at hd hgo ⊢
        exact hs hd hwait hgo
      · rw [if_neg he] at hd hgo ⊢
        have hawake : e.isWaiting = false := by simpa using he
        exact ih (canResume_iff.mpr (.inl hawake)) (fun _ => hawake) hd hgo

end Chain

/-- Every chain of the run that can go on is ready. -/
def Run.Awake (w : World) (r : Run) : Prop :=
  ∀ c ∈ r.chains, c.canResume w = true → c.id ∈ r.ready

namespace Run

theorem mem_ready_wake {r : Run} {which : Chain → Bool} {id : Nat} :
    id ∈ (r.wake which).ready ↔ id ∈ r.ready ∨ ∃ c ∈ r.chains, which c = true ∧ c.id = id := by
  simp only [wake, List.mem_append, List.mem_map, List.mem_filter, Bool.and_eq_true,
    Bool.not_eq_true', List.contains_eq_mem, decide_eq_false_iff_not]
  constructor
  · rintro (h | ⟨c, ⟨hc, hw, -⟩, rfl⟩)
    · exact .inl h
    · exact .inr ⟨c, hc, hw, rfl⟩
  · rintro (h | ⟨c, hc, hw, rfl⟩)
    · exact .inl h
    · by_cases hr : c.id ∈ r.ready
      · exact .inl hr
      · exact .inr ⟨c, ⟨hc, hw, hr⟩, rfl⟩

theorem awake_wake {w : World} {which : Chain → Bool} {r : Run}
    (h : ∀ c ∈ r.chains, c.canResume w = true → c.id ∈ r.ready ∨ which c = true) :
    (r.wake which).Awake w := by
  intro c hc hgo
  exact mem_ready_wake.mpr ((h c hc hgo).imp_right fun hw => ⟨c, hc, hw, rfl⟩)

theorem Awake.mono {w w' : World} {r : Run} (h : r.Awake w)
    (hw : ∀ c : Chain, c.canResume w' = true → c.canResume w = true) : r.Awake w' :=
  fun c hc hgo => h c hc (hw c hgo)

theorem Awake.receive {w : World} {r : Run} (h : r.Awake w) (ask : Nat) (text : String) :
    (r.receive ask text).Awake w := by
  intro d hd hgo
  obtain ⟨c, hc, rfl⟩ := List.mem_map.mp hd
  rw [Chain.receive_id]
  refine mem_ready_wake.mpr ?_
  by_cases ha : c.awaits ask = true
  · exact .inr ⟨c, hc, ha, rfl⟩
  · rw [Chain.receive, if_neg ha] at hgo
    exact .inl (h c hc hgo)

theorem Awake.wake_pausing {w : World} {r : Run} (h : r.Awake w) (w' : World) :
    (r.wake Chain.isPausing).Awake w' := by
  refine awake_wake fun c hc hgo => ?_
  rcases Chain.canResume_iff.mp hgo with hawake | hreply | ⟨hpause, -⟩
  · exact .inl (h c hc (Chain.canResume_iff.mpr (.inl hawake)))
  · exact .inl (h c hc (Chain.canResume_iff.mpr (.inr (.inl hreply))))
  · exact .inr hpause

theorem Awake.wake_due {w : World} {r : Run} (h : r.Awake w) (time : Nat) :
    (r.wake fun c => c.due?.any (· ≤ time)).Awake { w with now := time } := by
  refine awake_wake fun c hc hgo => ?_
  rcases Chain.canResume_iff.mp hgo with hawake | hreply | ⟨hpause, hstop | hdue | hcut⟩
  · exact .inl (h c hc (Chain.canResume_iff.mpr (.inl hawake)))
  · exact .inl (h c hc (Chain.canResume_iff.mpr (.inr (.inl hreply))))
  · exact .inl (h c hc (Chain.canResume_iff.mpr (.inr (.inr ⟨hpause, .inl hstop⟩))))
  · exact .inr hdue
  · exact .inl (h c hc (Chain.canResume_iff.mpr (.inr (.inr ⟨hpause, .inr (.inr hcut)⟩))))

end Run

namespace Machine

def Awake (m : Machine) : Prop :=
  ∀ r ∈ m.runs, r.Awake m.world

theorem forall_mapRun {m : Machine} {call : Nat} {f : Run → Run} {P : Run → Prop}
    (hother : ∀ r ∈ m.runs, r.call ≠ call → P r) (hat : ∀ r ∈ m.runs, r.call = call → P (f r)) :
    ∀ r ∈ (m.mapRun call f).runs, P r := by
  refine List.forall_mem_map.mpr fun r hr => ?_
  split
  · rename_i hcall
    exact hat r hr hcall
  · rename_i hcall
    exact hother r hr hcall

theorem awake_of_no_runs {m : Machine} (h : m.runs = []) : m.Awake := by
  simp [Awake, h]

theorem Awake.mapWorld {m : Machine} (h : m.Awake) {f : World → World}
    (hw : m.world.SameWaits (f m.world)) : (m.mapWorld f).Awake :=
  fun r hr => (h r hr).mono fun c hgo => Chain.canResume_congr hw c ▸ hgo

theorem Awake.mapRuns {m : Machine} (h : m.Awake) {f : Run → Run}
    (hf : ∀ r : Run, r.Awake m.world → (f r).Awake m.world) : (m.mapRuns f).Awake := by
  intro r hr
  obtain ⟨s, hs, rfl⟩ := List.mem_map.mp hr
  exact hf s (h s hs)

theorem Awake.mapRun {m : Machine} (h : m.Awake) (call : Nat) {f : Run → Run}
    (hf : ∀ r : Run, r.Awake m.world → (f r).Awake m.world) : (m.mapRun call f).Awake :=
  forall_mapRun (fun r hr _ => h r hr) fun r hr _ => hf r (h r hr)

theorem Awake.startChain {m : Machine} (h : m.Awake) (call : Nat)
    (hat : String × Script × Block) : (m.startChain call hat).Awake := by
  obtain ⟨sprite, script, hat⟩ := hat
  have hnoted := h.mapWorld (f := (·.note (.chainStarted hat.id sprite))) ⟨rfl, rfl, rfl⟩
  refine hnoted.mapRun call fun r hr c hc hgo => ?_
  rcases List.mem_append.mp hc with hc | hc
  · exact List.mem_append_left _ (hr c hc hgo)
  · rw [List.mem_singleton.mp hc]
    exact List.mem_append_right _ List.mem_cons_self

theorem Awake.spawn {m : Machine} (h : m.Awake) (call : Nat) (t : Trigger) :
    (m.spawn call t).Awake := by
  unfold Machine.spawn
  split
  · exact h
  · exact List.foldlRecOn _ _ h fun m hm hat _ => hm.startChain call hat

theorem Awake.beginRun {m : Machine} (h : m.Awake) (call : Nat) : (m.beginRun call).Awake := by
  unfold Machine.beginRun
  split
  · exact h
  · rename_i r hr
    have hgoing : (m.mapRun call fun r => { r with phase := .going }).Awake :=
      h.mapRun call fun r hr => hr
    exact hgoing.spawn call r.first

theorem Awake.handleTriggers {m : Machine} (h : m.Awake) (call : Nat) :
    (m.handleTriggers call).Awake := by
  unfold Machine.handleTriggers
  split
  · exact h
  · have hemptied : (m.mapRun call fun r => { r with queue := [] }).Awake :=
      h.mapRun call fun r hr => hr
    simp only
    split
    · exact List.foldlRecOn _ _ hemptied fun m hm t _ => hm.spawn call t
    · exact hemptied

/-- A delivery wakes the chains whose sound was cut. -/
theorem awake_deliver {m : Machine}
    (h : ∀ r ∈ m.runs, ∀ c ∈ r.chains, c.canResume m.world = true →
      c.id ∈ r.ready ∨ c.hearsCut m.world.generation = true) : m.deliver.Awake := by
  intro r hr
  unfold deliver at hr ⊢
  cases hsender : m.world.sender with
  | none =>
    simp only [hsender] at hr ⊢
    obtain ⟨s, hs, rfl⟩ := List.mem_map.mp hr
    exact Run.awake_wake (h s hs)
  | some call =>
    simp only [hsender] at hr ⊢
    obtain ⟨s, hs, rfl⟩ := List.mem_map.mp hr
    obtain ⟨t, ht, rfl⟩ := List.mem_map.mp hs
    refine Run.awake_wake ?_
    split
    · exact h t ht
    · exact h t ht

theorem Awake.replyEmpty {m : Machine} {w : World} (h : ∀ r ∈ m.runs, r.Awake w)
    (asks : List Nat) : ∀ r ∈ (m.replyEmpty asks).runs, r.Awake w := by
  refine List.foldlRecOn (motive := fun m : Machine => ∀ r ∈ m.runs, r.Awake w) _ _ h ?_
  intro m hm ask _
  exact List.forall_mem_map.mpr fun r hr => (hm r hr).receive ask ""

theorem Awake.halt {m : Machine} (h : m.Awake) : m.halt.Awake := by
  have hwoken : ∀ r ∈ ((m.mapWorld fun w => { w with running := false }).mapRuns
      (·.wake Chain.isPausing)).runs, r.Awake m.halt.world :=
    List.forall_mem_map.mpr fun r hr => (h r hr).wake_pausing _
  exact Awake.replyEmpty hwoken m.world.asks

theorem Awake.stop {m : Machine} (h : m.Awake) : m.stop.Awake :=
  (h.mapWorld ⟨rfl, rfl, rfl⟩).halt

theorem Awake.finish {m : Machine} (h : m.Awake) (call : Nat) : (m.finish call).Awake := by
  let idle := m.mapWorld fun w => { w with state := w.state.finish, sender := none }
  have hidle : idle.Awake := h.mapWorld ⟨rfl, rfl, rfl⟩
  have hleft : Awake { idle with runs := m.runs.filter (·.call != call) } := fun r hr =>
    hidle r (List.mem_of_mem_filter hr)
  exact hleft.halt.mapWorld (f := fun w => w.note (.runFinished w.state)) ⟨rfl, rfl, rfl⟩

/-- Timers wake the chains whose pauses have come to their end since the clock moved. -/
theorem Awake.fireTimers {m : Machine} (h : m.Awake) (time : Nat) :
    (m.mapWorld fun w => { w with now := time }).fireTimers.Awake := by
  intro r hr
  obtain ⟨s, hs, rfl⟩ := List.mem_map.mp hr
  exact (h s hs).wake_due time

theorem Awake.opened {m : Machine} (h : m.Awake) (t : Trigger) : (m.opened t).Awake := by
  have hgoing : (m.opened t).world.running = true ∧ (m.opened t).world.now = m.world.now ∧
      (m.opened t).world.generation = m.world.generation := ⟨rfl, rfl, rfl⟩
  obtain ⟨hrunning, hnow, hcuts⟩ := hgoing
  have hnew : (m.newRun t).Awake (m.opened t).world := fun c hc => absurd hc List.not_mem_nil
  refine List.forall_mem_append.mpr ⟨fun r hr => ?_, List.forall_mem_singleton.mpr hnew⟩
  exact (h r hr).mono fun c => Chain.canResume_going hrunning hnow hcuts

theorem Awake.start {m : Machine} (h : m.Awake) (t : Trigger) : (m.start 0 t).Awake := by
  by_cases hs : m.world.state = .running
  · rw [Machine.start, if_pos hs]
    exact h.mapWorld (f := (·.note (.alreadyRunning t))) ⟨rfl, rfl, rfl⟩
  · rw [start_eq_opened t hs]
    exact h.opened t

theorem Awake.click {m : Machine} (h : m.Awake) (sprite : String) : (m.click 0 sprite).Awake := by
  unfold Machine.click
  split
  · exact h
  · split
    · have hsent := h.mapWorld (f := (·.send (.click sprite))) ⟨rfl, rfl, rfl⟩
      exact awake_deliver fun r hr c hc hgo => .inl (hsent r hr c hc hgo)
    · exact h.start _

theorem Awake.answer {m : Machine} (h : m.Awake) (text : String) : (m.answer text).1.Awake := by
  unfold Machine.answer
  split
  · exact h
  · rename_i ask rest ha
    have hasked := h.mapWorld (f := fun w => { w with asks := rest }.mapStage fun s =>
      { s with prompts := s.prompts.filter (·.id != ask) }) ⟨rfl, rfl, rfl⟩
    exact hasked.mapRuns fun r hr => hr.receive ask text

theorem Awake.obey {m : Machine} (h : m.Awake) (c : Command) : (m.obey 0 c).1.Awake := by
  cases c with
  | flag =>
    simp only [Machine.obey, Machine.flag]
    split
    · exact h.start .flag
    · exact h
  | click sprite => exact h.click sprite
  | stop => exact h.stop
  | answer text => exact h.answer text
  | editSprite sprite edit =>
    simp only [Machine.obey]
    split
    · exact h
    · exact h
  | _ => exact h

theorem Awake.resumeChain {m : Machine} (hm : m.Tidy) (h : m.Awake) {fuel : Nat} (hf : fuel ≠ 0)
    (call id : Nat) : (m.resumeChain fuel call id).1.Awake := by
  have hothers {r : Run} (hr : r ∈ m.runs) {d : Chain} (hd : d ∈ r.chains)
      (hgo : d.canResume m.world = true) (hne : d.id ≠ id) : d.id ∈ r.ready.erase id :=
    (List.mem_erase_of_ne hne).mpr (h r hr d hd hgo)
  rw [resumeChain_eq]
  cases hres : m.resumable? call id with
  | none =>
    refine forall_mapRun (fun r hr _ => h r hr) fun r hr hcall d hd hgo => hothers hr hd hgo ?_
    rintro rfl
    rw [← hcall, resumable?_of_mem hm hr hd hgo] at hres
    cases hres
  | some p =>
    obtain ⟨scripts, c⟩ := p
    obtain ⟨rfl, hgo, -⟩ := of_resumable? hres
    obtain ⟨-, hrunning, -⟩ := c.run_same_run scripts fuel m.world
    have hnow := (c.run_sameHost scripts fuel m.world).now
    have hself (d : Chain) (hd : (c.run scripts fuel m.world).2 = some d) :
        d.id = c.id ∧ (d.isWaiting = true → d.canResume (c.run scripts fuel m.world).1 = true →
          d.hearsCut (c.run scripts fuel m.world).1.generation = true) :=
      ⟨(Chain.run_id hd).1, Chain.run_rests hgo (absurd · hf) hd⟩
    simp only
    generalize c.run scripts fuel m.world = after at hrunning hnow hself
    obtain ⟨w', c'⟩ := after
    refine awake_deliver (forall_mapRun ?_ ?_)
    · refine forall_mapRun (fun r hr _ _ d hd hgo' => ?_)
        fun r hr hcall hother => absurd hcall hother
      exact (Chain.canResume_after hrunning hnow hgo').imp_left (h r hr d hd)
    · refine forall_mapRun (fun r hr hother hcall => absurd hcall hother)
        fun r hr _ _ d hd hgo' => ?_
      cases c' with
      | none =>
        obtain ⟨hmem, hne⟩ := List.mem_filter.mp hd
        refine (Chain.canResume_after hrunning hnow hgo').imp_left fun hgo => ?_
        exact hothers hr hmem hgo (by simpa using hne)
      | some e =>
        obtain ⟨hid, hrests⟩ := hself e rfl
        rcases List.mem_append.mp hd with hd | hd
        · obtain ⟨hmem, hne⟩ := List.mem_filter.mp hd
          refine (Chain.canResume_after hrunning hnow hgo').imp_left fun hgo => ?_
          have hready := hothers hr hmem hgo (by simpa using hne)
          simp only
          split
          · exact hready
          · exact List.mem_cons_of_mem _ hready
        · cases List.mem_singleton.mp hd
          by_cases hwait : d.isWaiting = true
          · exact .inr (hrests hwait hgo')
          · left
            simp only [if_neg hwait, List.mem_cons_self]

/-- Whatever happens within an instant, no wake-up is lost. -/
theorem Awake.next {m m' : Machine} (hm : m.Tidy) (h : m.Awake) {e : Event}
    (he : e.isImmediate = true) (hnext : m.next? e = some m') : m'.Awake := by
  cases e with
  | obey c =>
    cases hnext
    exact h.obey c
  | beginRun call =>
    obtain ⟨-, ⟨⟩⟩ := Option.ite_none_right_eq_some.mp hnext
    exact h.beginRun call
  | handleTriggers call =>
    obtain ⟨-, ⟨⟩⟩ := Option.ite_none_right_eq_some.mp hnext
    exact h.handleTriggers call
  | resumeChain fuel call id =>
    cases hnext
    exact h.resumeChain hm (by simpa [Event.isImmediate, Event.isTurn] using he) call id
  | finish call =>
    obtain ⟨-, ⟨⟩⟩ := Option.ite_none_right_eq_some.mp hnext
    exact h.finish call
  | _ => cases he

theorem Awake.after {m m' : Machine} (hm : m.Tidy) (h : m.Awake) {es : List Event}
    (he : ∀ e ∈ es, e.isImmediate = true) (hafter : m.after es = some m') : m'.Awake := by
  refine after_induction (P := fun es m => (∀ e ∈ es, e.isImmediate = true) → m.Awake) (fun _ => h)
    ?_ hafter he
  intro es m e m' hb ih hnext hall
  rw [List.forall_mem_append, List.forall_mem_singleton] at hall
  exact (ih hall.1).next (hm.after hb) hall.2 hnext

/-- No run has anything to do at once. -/
def AtRest (m : Machine) : Prop :=
  ∀ r ∈ m.runs, r.canGo m.world = false

instance (m : Machine) : Decidable m.AtRest :=
  inferInstanceAs (Decidable (∀ r ∈ m.runs, _))

/-- No chain can go on when the runs have come to rest. -/
theorem Awake.rests {m : Machine} (hm : m.Tidy) (h : m.Awake) (hrest : m.AtRest) :
    ∀ c ∈ m.chains, c.canResume m.world = false := by
  intro c hc
  obtain ⟨r, hr, hmem⟩ := List.mem_flatMap.mp hc
  refine Bool.eq_false_iff.mpr fun hgo => ?_
  have hready := h r hr c hmem hgo
  have hidle := hrest r hr
  cases hp : r.phase with
  | starting due =>
    rw [(hm.runs r hr).waiting due hp] at hmem
    cases hmem
  | going =>
    simp only [Run.canGo, hp, Bool.or_eq_false_iff, Bool.not_eq_false', List.isEmpty_iff] at hidle
    rw [hidle.1.2] at hready
    cases hready

/-- An answer makes the chain that waits for it ready in its run. -/
theorem answer_ready {m : Machine} {ask : Nat} {rest : List Nat} (ha : m.world.asks = ask :: rest)
    (text : String) {r : Run} (hr : r ∈ m.runs) {c : Chain} (hc : c ∈ r.chains)
    (hask : c.ask? = some ask) :
    ∃ s ∈ (m.answer text).1.runs, s.call = r.call ∧ c.id ∈ s.ready := by
  simp only [answer, ha]
  refine ⟨r.receive ask text, List.mem_map_of_mem hr, rfl, ?_⟩
  exact Run.mem_ready_wake.mpr (.inr ⟨c, hc, Chain.awaits_iff.mpr hask, rfl⟩)

end Machine

end BlockScript

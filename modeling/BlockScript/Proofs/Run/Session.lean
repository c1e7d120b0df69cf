import BlockScript.Proofs.Run.Outcome

/-! A session is made of events: whatever runs do in their turns, and whatever happens within an
instant, is a list of them. -/

namespace BlockScript

namespace Machine

/-- The turns of runs lead from one machine to the other. -/
def Works (m m' : Machine) : Prop :=
  ∃ es, m.after es = some m' ∧ ∀ e ∈ es, e.isTurn = true

theorem Works.refl (m : Machine) : m.Works m :=
  ⟨[], rfl, by simp⟩

theorem Works.trans {m m' m'' : Machine} (h : m.Works m') (h' : m'.Works m'') : m.Works m'' := by
  obtain ⟨es, he, hi⟩ := h
  obtain ⟨es', he', hi'⟩ := h'
  refine ⟨es ++ es', after_append_iff.mpr ⟨m', he, he'⟩, ?_⟩
  rw [List.forall_mem_append]
  exact ⟨hi, hi'⟩

theorem Works.single {m m' : Machine} {e : Event} (he : m.next? e = some m')
    (hi : e.isTurn = true) : m.Works m' :=
  ⟨[e], by simpa [after] using he, by simpa using hi⟩

theorem Works.tidy {m m' : Machine} (h : m.Works m') (hm : m.Tidy) : m'.Tidy := by
  obtain ⟨es, he, -⟩ := h
  exact hm.after he

theorem pass_works (fuel turns : Nat) (m : Machine) (call : Nat) :
    m.Works (m.pass (fuel + 1) turns call).1 := by
  induction turns generalizing m with
  | zero => exact .refl m
  | succ turns ih =>
    rw [pass]
    split
    · exact .refl m
    · rename_i id hid
      have hr : m.Works (m.resumeChain (fuel + 1) call id).1 :=
        .single (e := .resumeChain (fuel + 1) call id) rfl rfl
      split
      · rename_i m' hm'
        rw [hm'] at hr
        exact hr
      · rename_i m' hm'
        rw [hm'] at hr
        exact hr.trans (ih m')

theorem isOver_of_alive {m : Machine} (hm : m.Tidy) {call : Nat} {r : Run}
    (hr : m.run? call = some r) (hp : r.phase = .going)
    (ha : (m.handleTriggers call).alive call = 0) :
    ((m.handleTriggers call).run? call).any (·.isOver (m.handleTriggers call).world) = true := by
  obtain ⟨rfl, R₁, R₂, hR⟩ := run?_split hr
  have hn : (m.lanes.map (·.call)).Nodup := (tidy_asleep.mpr hm).calls
  have hlanes := congrArg runs (handleTriggers_asleep hn hR)
  have hn' : ((m.handleTriggers r.call).lanes.map (·.call)).Nodup := by
    rw [show (m.handleTriggers r.call).lanes = _ from hlanes]
    exact nodup_middle hn hR rfl
  obtain ⟨s, hs, he⟩ := run?_of_split hn' hlanes
  have hs' : (m.handleTriggers r.call).run? r.call = some s := hs
  have hphase : s.phase = .going := (congrArg Run.phase he).trans hp
  have hqueue : s.queue = [] := congrArg Run.queue he
  have hchains : s.chains = [] := by
    rw [alive, hs'] at ha
    exact List.eq_nil_of_length_eq_zero ha
  rw [hs']
  simp [Run.isOver, hphase, hqueue, hchains]

theorem poll_works (fuel : Nat) {m : Machine} (hm : m.Tidy) (call : Nat) :
    m.Works (poll fuel m call) := by
  induction fuel generalizing m with
  | zero => exact .refl m
  | succ fuel ih =>
    rw [poll]
    split
    · exact .refl m
    · rename_i r hr
      split
      · rename_i due hp
        by_cases hw : m.world.running = true
        · rw [if_neg (by simp [hw])]
          by_cases hd : due ≤ m.world.now
          · rw [if_pos hd]
            have hb : m.Works (m.beginRun call) := by
              refine .single (e := .beginRun call) (if_pos ?_) rfl
              simp [hr, Run.canBegin, hp, hw, hd]
            exact hb.trans (ih (hb.tidy hm))
          · rw [if_neg hd]
            exact .refl m
        · rw [if_pos (by simpa using hw)]
          refine .single (e := .finish call) (if_pos ?_) rfl
          simpa [hr, Run.isOver, hp] using hw
      · rename_i hp
        have hh : m.Works (m.handleTriggers call) := by
          refine .single (e := .handleTriggers call) (if_pos ?_) rfl
          simp [hr, hp]
        simp only
        split
        · rename_i ha
          exact hh.trans (.single (e := .finish call) (if_pos (isOver_of_alive hm hr hp ha)) rfl)
        · have hpass := pass_works fuel ((m.handleTriggers call).alive call)
            (m.handleTriggers call) call
          split
          · rename_i m' hm'
            rw [hm'] at hpass
            exact (hh.trans hpass).trans (ih (hpass.tidy (hh.tidy hm)))
          · rename_i m' hm'
            rw [hm'] at hpass
            exact hh.trans hpass

theorem foldl_poll_works (fuel : Nat) (calls : List Nat) {m : Machine} (hm : m.Tidy) :
    m.Works (calls.foldl (poll fuel) m) := by
  induction calls generalizing m with
  | nil => exact .refl m
  | cons call calls ih =>
    have hp := poll_works fuel hm call
    exact hp.trans (ih (hp.tidy hm))

theorem settle_works (fuel rounds : Nat) {m : Machine} (hm : m.Tidy) :
    m.Works (settle fuel rounds m) := by
  induction rounds generalizing m with
  | zero => exact .refl m
  | succ rounds ih =>
    rw [settle]
    split
    · have hp := foldl_poll_works fuel (m.runs.map (·.call)) hm
      exact hp.trans (ih (hp.tidy hm))
    · exact .refl m

theorem start_works (fuel : Nat) {m : Machine} (t : Trigger) (hm : (m.start 0 t).Tidy) :
    (m.start 0 t).Works (m.start fuel t) := by
  unfold start at hm ⊢
  split
  · exact .refl _
  · rename_i hs
    rw [if_neg hs] at hm
    exact poll_works fuel hm _

/-- A command is what the host sees at once, and then what a new run does. -/
theorem obey_works (fuel : Nat) {m : Machine} (c : Command) (hm : (m.obey 0 c).1.Tidy) :
    (m.obey 0 c).1.Works (m.obey fuel c).1 := by
  cases c with
  | flag =>
    simp only [obey, flag] at hm ⊢
    split
    · rename_i ha
      rw [if_pos ha] at hm
      exact start_works fuel .flag hm
    · exact .refl _
  | click sprite =>
    simp only [obey, click] at hm ⊢
    split
    · exact .refl _
    · split
      · exact .refl _
      · rename_i ha hs
        rw [if_neg ha, if_neg hs] at hm
        exact start_works fuel (.click sprite) hm
  | _ => exact .refl _

end Machine

namespace Session

/-- The events `es` lead from one session to the other, and unless the limit is hit their commands
are those that were to come. -/
structure Leads (s : Session) (es : List Event) (s' : Session) : Prop where
  after : s.machine.after es = some s'.machine
  obeyed : s'.limitHit = false → s.limitHit = false ∧
    s.commands.map Prod.snd = es.filterMap Event.command? ++ s'.commands.map Prod.snd

theorem Leads.refl (s : Session) : s.Leads [] s :=
  ⟨rfl, fun h => ⟨h, rfl⟩⟩

theorem Leads.trans {s s' s'' : Session} {es es' : List Event} (h : s.Leads es s')
    (h' : s'.Leads es' s'') : s.Leads (es ++ es') s'' := by
  refine ⟨Machine.after_append_iff.mpr ⟨_, h.after, h'.after⟩, fun hlimit => ?_⟩
  obtain ⟨hlimit', hrest⟩ := h'.obeyed hlimit
  obtain ⟨hlimit, hfirst⟩ := h.obeyed hlimit'
  refine ⟨hlimit, ?_⟩
  rw [hfirst, hrest, List.filterMap_append, List.append_assoc]

theorem Leads.tidy {s s' : Session} {es : List Event} (h : s.Leads es s') (hm : s.machine.Tidy) :
    s'.machine.Tidy :=
  hm.after h.after

/-- An event that is no command leaves the commands to come as they are. -/
theorem Leads.single {s : Session} {e : Event} {m : Machine} (he : s.machine.next? e = some m)
    (hc : e.command? = none) : s.Leads [e] { s with machine := m } :=
  ⟨Machine.after_cons_iff.mpr ⟨m, he, rfl⟩, fun h => ⟨h, by simp [hc]⟩⟩

theorem Leads.of_works {s : Session} {m : Machine} (h : s.machine.Works m) :
    ∃ es, (∀ e ∈ es, e.isImmediate = true) ∧ s.Leads es { s with machine := m } := by
  obtain ⟨es, hes, hturns⟩ := h
  refine ⟨es, fun e he => Event.isImmediate_of_isTurn (hturns e he), hes, fun h => ⟨h, ?_⟩⟩
  have hnone : es.filterMap Event.command? = [] :=
    List.filterMap_eq_nil_iff.mpr fun e he => Event.command?_of_isTurn (hturns e he)
  rw [hnone, List.nil_append]

theorem obeyDue_leads (fuel : Nat) {s : Session} (hm : s.machine.Tidy) :
    ∃ es, (∀ e ∈ es, e.isImmediate = true) ∧ s.Leads es
      { s with
        machine := (obeyDue fuel s.machine s.replies s.commands).1
        replies := (obeyDue fuel s.machine s.replies s.commands).2.1
        commands := (obeyDue fuel s.machine s.replies s.commands).2.2 } := by
  obtain ⟨m, commands, limit, limitHit, replies⟩ := s
  induction commands generalizing m replies with
  | nil => exact ⟨[], by simp, .refl _⟩
  | cons command commands ih =>
    obtain ⟨time, c⟩ := command
    simp only [obeyDue]
    split
    · have hc : m.next? (.obey c) = some (m.obey 0 c).1 := rfl
      have hm₀ := hm.next hc
      obtain ⟨es, hes, hturns⟩ := Machine.obey_works fuel c hm₀
      obtain ⟨es', hes', hleads⟩ := ih (m.obey fuel c).1
        (replies.push ((m.obey fuel c).1.world.now, (m.obey fuel c).2)) (hm₀.after hes)
      refine ⟨.obey c :: (es ++ es'), ?_, ?_⟩
      · simp only [List.forall_mem_cons, List.forall_mem_append]
        exact ⟨rfl, fun e he => Event.isImmediate_of_isTurn (hturns e he), hes'⟩
      · refine ⟨Machine.after_cons_iff.mpr ⟨_, hc, ?_⟩, fun hlimit => ?_⟩
        · exact Machine.after_append_iff.mpr ⟨_, hes, hleads.after⟩
        · obtain ⟨hlimit, hrest⟩ := hleads.obeyed hlimit
          have hnone : es.filterMap Event.command? = [] :=
            List.filterMap_eq_nil_iff.mpr fun e he => Event.command?_of_isTurn (hturns e he)
          refine ⟨hlimit, ?_⟩
          simpa [Event.command?, hnone] using hrest
    · exact ⟨[], by simp, .refl _⟩

theorem enforceLimit_leads (s : Session) :
    ∃ es, (∀ e ∈ es, e.isImmediate = true) ∧ s.Leads es s.enforceLimit := by
  unfold enforceLimit
  split
  · refine ⟨[.obey .stop], by simp [Event.isImmediate], rfl, fun h => ?_⟩
    cases h
  · exact ⟨[], by simp, .refl s⟩

theorem instant_leads (fuel : Nat) {s : Session} (hm : s.machine.Tidy) :
    ∃ es, (∀ e ∈ es, e.isImmediate = true) ∧ s.Leads (.fireTimers :: es) (s.instant fuel) := by
  have hfire : s.Leads [.fireTimers] { s with machine := s.machine.fireTimers } := .single rfl rfl
  obtain ⟨es₁, h₁, hdue⟩ := obeyDue_leads fuel (hfire.tidy hm)
  have hdue := hfire.trans hdue
  obtain ⟨es₂, h₂, hlimit⟩ := enforceLimit_leads _
  have hlimit := hdue.trans hlimit
  obtain ⟨es₃, h₃, hsettle⟩ := Leads.of_works (Machine.settle_works fuel fuel (hlimit.tidy hm))
  refine ⟨es₁ ++ es₂ ++ es₃, ?_, hlimit.trans hsettle⟩
  simp only [List.forall_mem_append]
  exact ⟨⟨h₁, h₂⟩, h₃⟩

theorem now_lt_of_nextTime? {s : Session} {time : Nat} (h : s.nextTime? = some time) :
    s.now < time := by
  have hmem := List.min?_mem h
  simpa using (List.mem_filter.mp hmem).2

theorem next?_nextTime? {s : Session} {time : Nat} (h : s.nextTime? = some time) :
    s.machine.next? (.advance time) = some (s.advance time).machine :=
  if_pos (Nat.le_of_lt (now_lt_of_nextTime? h))

theorem advance_leads {s : Session} {time : Nat} (h : s.nextTime? = some time) :
    s.Leads [.advance time] (s.advance time) :=
  .single (next?_nextTime? h) rfl

/-- The session in which a machine is about to play `commands`. -/
def opening (m : Machine) (commands : List (Nat × Command)) (limit : Nat) : Session where
  machine := m.rewound
  commands := commands
  limit := limit
  limitHit := false
  replies := #[]

theorem play_eq (fuel : Nat) (m : Machine) (commands : List (Nat × Command)) (limit : Nat) :
    play fuel m commands limit = go fuel fuel (opening m commands limit) :=
  rfl

end Session

end BlockScript

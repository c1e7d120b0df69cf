import BlockScript.Proofs.Run.Awake
import BlockScript.Proofs.Run.Session
import BlockScript.Proofs.Run.Sound

/-! Sessions from their beginning to their end. With enough fuel each instant brings the runs to
rest, so that the clock overtakes no chain. -/

namespace BlockScript

namespace Event

/-- Whether the event happens in a session: within an instant, or on the way to the next one. -/
def isPlayed : Event → Bool
  | advance _ | fireTimers => true
  | e => e.isImmediate

def movesClock : Event → Bool
  | advance _ => true
  | _ => false

/-- Whether the event lets the chain take a turn. -/
def resumes (call id : Nat) : Event → Bool
  | resumeChain _ k i => k == call && i == id
  | _ => false

theorem isPlayed_of_isImmediate {e : Event} (h : e.isImmediate = true) : e.isPlayed = true := by
  cases e with
  | advance | fireTimers => rfl
  | _ => exact h

end Event

open Machine

namespace Session

/-- Whether the fuel is enough: every instant brings the runs to rest, and the session comes to its
end. -/
def settles (fuel : Nat) : Nat → Session → Bool
  | 0, _ => false
  | instants + 1, s =>
    let s := s.instant fuel
    s.machine.AtRest &&
      (s.isDone || s.nextTime?.all fun time => settles fuel instants (s.advance time))

/-- No chain can go on, and there is no time at which something happens. -/
structure Over (s : Session) : Prop where
  rests : ∀ c ∈ s.machine.chains, c.canResume s.machine.world = false
  last : s.isDone = true ∨ s.nextTime? = none

theorem Over.not_playing {s : Session} (hm : s.machine.Tidy) (h : s.Over) {call id : Nat}
    {wait : Nat × Nat} : s.machine.playing? call id ≠ some wait := by
  intro hplaying
  obtain ⟨c, hc, hwait⟩ := playing?_eq_some_iff.mp hplaying
  have hmem := mem_chains_of_chain? hc
  have hrest := h.rests c hmem
  rcases Task.of_playing? hwait with ⟨length, ht, -⟩ | ht
  · simp [Chain.canResume, ht] at hrest
  · have hdue : c.due? = some wait.1 := by simp only [Chain.due?, ht]
    obtain ⟨time, htime, -⟩ := nextTime?_le hm h.rests hmem hdue
    rcases h.last with hdone | hnone
    · simp only [isDone, Bool.and_eq_true, List.isEmpty_iff] at hdone
      exact runs_of_playing? hplaying hdone.2
    · cases hnone.symm.trans htime

theorem not_overtaken_of_isImmediate {es : List Event} (h : ∀ e ∈ es, e.isImmediate = true)
    (m : Machine) : m.gather overtakenBy es = [] := by
  refine gather_eq_nil (fun e he m m' => ?_) m
  cases e with
  | advance time => cases h _ he
  | _ => rfl

/-- A session is a list of events, and with enough fuel no chain is overtaken by the clock. -/
theorem go_leads (fuel instants : Nat) {s : Session} (hm : s.machine.Tidy) :
    ∃ es, s.Leads es (go fuel instants s) ∧ (∀ e ∈ es, e.isPlayed = true) ∧
      (s.machine.fireTimers.Awake → settles fuel instants s = true →
        s.machine.gather overtakenBy es = [] ∧ (go fuel instants s).Over) := by
  induction instants generalizing s with
  | zero => exact ⟨[], .refl s, by simp, fun _ h => by cases h⟩
  | succ instants ih =>
    obtain ⟨es, himmediate, hes⟩ := instant_leads fuel hm
    have hm' := hes.tidy hm
    have hplayed : ∀ e ∈ Event.fireTimers :: es, e.isPlayed = true :=
      List.forall_mem_cons.mpr
        ⟨rfl, fun e he => Event.isPlayed_of_isImmediate (himmediate e he)⟩
    have hquiet : s.machine.gather overtakenBy (.fireTimers :: es) = [] :=
      not_overtaken_of_isImmediate himmediate s.machine.fireTimers
    have hawake (h : s.machine.fireTimers.Awake) : (s.instant fuel).machine.Awake := by
      obtain ⟨m, hfire, hafter⟩ := after_cons_iff.mp hes.after
      cases hfire
      exact h.after (hm.next (e := .fireTimers) rfl) himmediate hafter
    rw [go, settles]
    simp only [Bool.and_eq_true, decide_eq_true_eq]
    generalize s.instant fuel = s' at *
    by_cases hdone : s'.isDone = true
    · rw [if_pos hdone]
      refine ⟨_, hes, hplayed, fun h hrest => ⟨hquiet, ?_, .inl hdone⟩⟩
      exact (hawake h).rests hm' hrest.1
    · rw [if_neg hdone]
      cases htime : s'.nextTime? with
      | none =>
        refine ⟨_, hes, hplayed, fun h hrest => ⟨hquiet, ?_, .inr htime⟩⟩
        exact (hawake h).rests hm' hrest.1
      | some time =>
        have hadvance := advance_leads htime
        obtain ⟨later, hlater, hplayed', hrest'⟩ := ih (hadvance.tidy hm')
        refine ⟨(.fireTimers :: es) ++ .advance time :: later, hes.trans (hadvance.trans hlater),
          List.forall_mem_append.mpr ⟨hplayed, List.forall_mem_cons.mpr ⟨rfl, hplayed'⟩⟩,
          fun h hrest => ?_⟩
        simp only [hdone, Option.all_some, Bool.false_or] at hrest
        have hrests := (hawake h).rests hm' hrest.1
        obtain ⟨hlate, hover⟩ := hrest' ((hawake h).fireTimers time) hrest.2
        refine ⟨?_, hover⟩
        rw [gather_append hes.after, hquiet, List.nil_append,
          gather_cons (next?_nextTime? htime),
          overtakenBy_nextTime? hm' hrests htime, List.nil_append]
        exact hlate

theorem play_leads {m : Machine} (h : m.Reachable) (hruns : m.runs = [])
    (commands : List (Nat × Command)) (limit fuel : Nat) :
    ∃ es, (opening m commands limit).Leads es (play fuel m commands limit) ∧
      (∀ e ∈ es, e.isPlayed = true) ∧
      ((opening m commands limit).settles fuel fuel = true →
        m.rewound.gather overtakenBy es = [] ∧ (play fuel m commands limit).Over) := by
  have hm : (opening m commands limit).machine.Tidy := (h.rewound hruns).tidy
  obtain ⟨es, hes, hplayed, hsettles⟩ := go_leads fuel fuel hm
  exact ⟨es, hes, hplayed, hsettles (awake_of_no_runs (List.map_eq_nil_iff.mpr hruns))⟩

end Session

namespace Machine

theorem interruptedBy_of_overtakenBy {m m' : Machine} {e : Event} (h : overtakenBy m e m' = [])
    (call id : Nat) : interruptedBy call id m e m' = [] := by
  cases e with
  | advance time =>
    have hpunctual := List.filter_eq_nil_iff.mp h
    rw [interruptedBy, Option.toList_eq_nil_iff, Option.filter_eq_none_iff]
    intro c hc hawake
    have hgo : c.canResume m.world = true := Chain.canResume_iff.mpr (.inl (by simpa using hawake))
    exact hpunctual c (mem_chains_of_chain? hc) (by rw [hgo, Bool.true_or])
  | _ => rfl

theorem after_now {m m' : Machine} (hm : m.Tidy) {es : List Event} (h : m.after es = some m')
    (he : ∀ e ∈ es, e.isPlayed = true ∧ e.movesClock = false) : m'.world.now = m.world.now := by
  refine after_induction (P := fun es m' =>
    (∀ e ∈ es, e.isPlayed = true ∧ e.movesClock = false) → m'.world.now = m.world.now)
    (fun _ => rfl) ?_ h he
  intro es m₁ e m₂ hb ih hnext hall
  rw [List.forall_mem_append, List.forall_mem_singleton] at hall
  obtain ⟨hplayed, hclock⟩ := hall.2
  refine Eq.trans ?_ (ih hall.1)
  cases e with
  | obey c =>
    cases hnext
    exact (obey_sameHost (hm.after hb) c).now
  | edit | change | rewind => cases hplayed
  | advance => cases hclock
  | _ => exact ((next?_outcome (hm.after hb) hnext).sameHost rfl nofun).now

/-- If the clock overtakes no chain and none can go on in the end, a chain that has a reply takes it
up before the clock moves. -/
theorem takes_up_at_once {m m' : Machine} (h : m.Reachable) {call id : Nat} {c : Chain} {ask : Nat}
    {text : String} (hc : m.chain? call id = some { c with task := .wait (.reply ask (some text)) })
    {es : List Event} (hes : m.after es = some m') (hplayed : ∀ e ∈ es, e.isPlayed = true)
    (hlate : m.gather overtakenBy es = [])
    (hrest : ∀ c ∈ m'.chains, c.canResume m'.world = false) :
    ∃ before f later m₁, es = before ++ .resumeChain (f + 1) call id :: later ∧
      m.after before = some m₁ ∧ m₁.world.now = m.world.now ∧ m₁.TakesUp call id c ask text := by
  let replied : Chain := { c with task := .wait (.reply ask (some text)) }
  have hgo (w : World) : replied.canResume w = true := Chain.canResume_of_reply? rfl w
  have hkept {before : List Event} {m₁ : Machine} (hb : m.after before = some m₁)
      (hn : ∀ e ∈ before, (e.resumes call id || e.movesClock) = false) :
      m₁.chain? call id = some replied :=
    after_chain? h.tidy hc rfl hb fun f hf => by simpa [Event.resumes] using hn _ hf
  cases hfirst : es.find? fun e => e.resumes call id || e.movesClock with
  | none =>
    have hlast := hkept hes fun e he => by simpa using List.find?_eq_none.mp hfirst e he
    cases (hgo _).symm.trans (hrest _ (mem_chains_of_chain? hlast))
  | some e =>
    obtain ⟨he, before, later, rfl, hbefore⟩ := List.find?_eq_some_iff_append.mp hfirst
    obtain ⟨m₁, hb, hlater⟩ := after_append_iff.mp hes
    obtain ⟨m₂, hnext, -⟩ := after_cons_iff.mp hlater
    have hlast := hkept hb fun e he => by simpa using hbefore e he
    cases e with
    | advance time =>
      have hpunctual := List.filter_eq_nil_iff.mp (gather_later hlate hb hnext).1 _
        (mem_chains_of_chain? hlast)
      exact absurd (by rw [hgo, Bool.true_or]) hpunctual
    | resumeChain f k i =>
      obtain ⟨rfl, rfl⟩ : k = call ∧ i = id := by
        simpa [Event.resumes, Event.movesClock] using he
      obtain ⟨f, rfl⟩ := Nat.exists_eq_succ_of_ne_zero (n := f) (by
        simpa [Event.isPlayed, Event.isImmediate, Event.isTurn] using hplayed (.resumeChain f k i))
      refine ⟨before, f, later, m₁, rfl, hb, ?_, takesUp (h.after hb) hlast⟩
      refine after_now h.tidy hb fun e he => ⟨hplayed e (List.mem_append_left _ he), ?_⟩
      have hquiet := hbefore e he
      simp only [Bool.not_eq_true', Bool.or_eq_false_iff] at hquiet
      exact hquiet.2
    | _ => cases he

end Machine

namespace Session

variable {m : Machine} {commands : List (Nat × Command)} {limit fuel : Nat}

/-- In a session, a chain that plays a built-in sound until it is done waits exactly until the sound
ends by itself or all sounds are cut, whichever comes first. -/
theorem play_sound_ends_on_time (h : m.Reachable) (hruns : m.runs = [])
    (hsettles : (opening m commands limit).settles fuel fuel = true) :
    ∃ es, (opening m commands limit).Leads es (play fuel m commands limit) ∧
      ∀ before f call id later m₀ m₁ w c name length,
        es = before ++ .resumeChain f call id :: later → m.rewound.after before = some m₀ →
        m₀.next? (.resumeChain f call id) = some m₁ →
        (w, c) ∈ momentsBy call id m₀ (.resumeChain f call id) m₁ →
        c.plays? w = some name → soundLength? name = some length →
        (m₁.gather (leavesBy call id (w.now + length, w.generation)) later).head? =
          some (soundEnd (w.now + length) (m₁.gather cutsBy later)) := by
  have hm := h.rewound hruns
  obtain ⟨es, hes, -, hquiet⟩ := play_leads h hruns commands limit fuel
  obtain ⟨hlate, hover⟩ := hquiet hsettles
  refine ⟨es, hes, ?_⟩
  rintro before f call id later m₀ m₁ w c name length rfl hbefore hnext hmoment hplays hlength
  have hm₀ := hm.after hbefore
  have hm₁ := hm₀.next hnext
  have hlater := after_later hes.after hbefore hnext
  obtain ⟨-, hpunctual⟩ := gather_later hlate hbefore hnext
  have hclock : m₁.gather (interruptedBy call id) later = [] :=
    gather_eq_nil_mono (fun m e m' h => interruptedBy_of_overtakenBy h call id) hpunctual
  have hwaits := next?_plays hm₀.tidy hnext hmoment hplays hlength
  rcases hwaits.after hm₁.tidy hlater hclock with ⟨-, hwaits⟩ | ⟨time, htime, hleft⟩
  · exact absurd hwaits.playing (hover.not_playing (hes.tidy hm.tidy))
  · rw [htime, hleft.prompt hpunctual]

/-- Fuel for fifty rounds and instants is enough when one chain cuts the sound of the other. -/
example : ((create .empty {} {}).after
      [.edit (.addSprite "🐱"), .edit (.editScript "sprite-1" fun _ => .ok (cutting, ()))]).any
    (fun m => m.runs.isEmpty && (opening m [(0, .flag)] 1000).settles 50 50) = true := by
  decide +kernel

/-- In a session that nobody stops, each run that begins handles its triggers in order. If the
session comes to its end, the run returns, and then it has handled all of them. -/
theorem play_triggers_in_order (h : m.Reachable) (hruns : m.runs = [])
    (hstop : ∀ p ∈ commands, p.2 ≠ .stop) (hlimit : (play fuel m commands limit).limitHit = false) :
    ∃ es, (opening m commands limit).Leads es (play fuel m commands limit) ∧
      ∀ before c t later m₀ m₁, es = before ++ .obey c :: later →
        m.rewound.after before = some m₀ → m₀.starts c = some t → m₀.next? (.obey c) = some m₁ →
        (∀ during m', during <+: later → .finish m₀.calls ∉ during → m₁.after during = some m' →
          m₀.InOrder t m₁ during m') ∧
        ((play fuel m commands limit).isDone = true →
          ∃ during m', during ++ [.finish m₀.calls] <+: later ∧ m₁.after during = some m' ∧
            m₀.InOrder t m₁ during m' ∧ (m'.next? (.finish m₀.calls)).isSome = true) := by
  have hm := h.rewound hruns
  obtain ⟨es, hes, -, -⟩ := play_leads h hruns commands limit fuel
  obtain ⟨-, hobeyed⟩ := hes.obeyed hlimit
  have hcalm : .obey .stop ∉ es := by
    intro hmem
    have hcommand : Command.stop ∈ commands.map Prod.snd := by
      rw [show commands.map Prod.snd = _ from hobeyed]
      exact List.mem_append_left _ (List.mem_filterMap.mpr ⟨_, hmem, rfl⟩)
    obtain ⟨p, hp, he⟩ := List.mem_map.mp hcommand
    exact hstop p hp he
  refine ⟨es, hes, ?_⟩
  rintro before c t later m₀ m₁ rfl hbefore hstart hopen
  simp only [List.mem_append, List.mem_cons, not_or] at hcalm
  have hm₀ := hm.after hbefore
  have hc₀ : m₀.Calm := (hm.calm hruns).after hm.tidy hbefore hcalm.1
  have horder : ∀ during m', during <+: later → .finish m₀.calls ∉ during →
      m₁.after during = some m' → m₀.InOrder t m₁ during m' := by
    intro during m' hduring hfinish hafter
    have hcalm' : .obey .stop ∉ during := fun hmem => hcalm.2.2 (hduring.subset hmem)
    exact hc₀.inOrder hm₀.tidy hstart hopen hafter hcalm' hfinish
  have hlater := after_later hes.after hbefore hopen
  refine ⟨horder, fun hdone => ?_⟩
  have hreturns : .finish m₀.calls ∈ later := by
    by_contra hn
    have hpresent := (horder later _ List.prefix_rfl hn hlater).present
    simp only [isDone, Bool.and_eq_true, List.isEmpty_iff] at hdone
    rw [run?, hdone.2] at hpresent
    cases hpresent
  obtain ⟨during, rest, rfl, hfinish⟩ := List.eq_append_cons_of_mem hreturns
  obtain ⟨m', hduring, hrest⟩ := after_append_iff.mp hlater
  obtain ⟨m'', hnext, -⟩ := after_cons_iff.mp hrest
  refine ⟨during, m', ⟨rest, by simp⟩, hduring, ?_, Option.isSome_iff_exists.mpr ⟨m'', hnext⟩⟩
  exact horder during m' (List.prefix_append ..) hfinish hduring

/-- In a session, the chain that waits on the oldest ask takes up an answer at the time when it is
given. -/
theorem play_takes_up_answers (h : m.Reachable) (hruns : m.runs = [])
    (hsettles : (opening m commands limit).settles fuel fuel = true) :
    ∃ es, (opening m commands limit).Leads es (play fuel m commands limit) ∧
      ∀ before text later m₀ ask rest, es = before ++ .obey (.answer text) :: later →
        m.rewound.after before = some m₀ → m₀.world.asks = ask :: rest →
        ∃ call id c, m₀.chain? call id = some c ∧ c.ask? = some ask ∧
          ∃ during f rest m₁, later = during ++ .resumeChain (f + 1) call id :: rest ∧
            (m₀.answer text).1.after during = some m₁ ∧ m₁.world.now = m₀.world.now ∧
            m₁.TakesUp call id c ask text := by
  have hm := h.rewound hruns
  obtain ⟨es, hes, hplayed, hquiet⟩ := play_leads h hruns commands limit fuel
  obtain ⟨hlate, hover⟩ := hquiet hsettles
  refine ⟨es, hes, ?_⟩
  rintro before text later m₀ ask rest rfl hbefore hasks
  have hm₀ := hm.after hbefore
  have hnext : m₀.next? (.obey (.answer text)) = some (m₀.answer text).1 := rfl
  have hlater := after_later hes.after hbefore hnext
  obtain ⟨-, hpunctual⟩ := gather_later hlate hbefore hnext
  rw [List.forall_mem_append, List.forall_mem_cons] at hplayed
  obtain ⟨call, id, c, hc, hask, hreplied⟩ := answer_chain? hm₀ hasks text
  obtain ⟨during, f, rest, m₁, rfl, hduring, hnow, htakes⟩ :=
    takes_up_at_once (hm₀.next hnext) hreplied hlater hplayed.2.2 hpunctual hover.rests
  refine ⟨call, id, c, hc, hask, during, f, rest, m₁, rfl, hduring, hnow.trans ?_, htakes⟩
  exact (obey_sameHost hm₀.tidy (.answer text)).now

end Session

end BlockScript

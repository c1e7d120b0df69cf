import BlockScript.Proofs.Run.Completion
import BlockScript.Proofs.Run.Outcome

/-! Triggers of a run that nobody stops. Each is handled once and in the order in which it was
sent, and when the call returns, none is left and every chain has come to its end. -/

namespace BlockScript

def Record.trigger? : Record → Option Trigger
  | broadcast message => some (.broadcast message)
  | _ => none

theorem Record.trigger?_of_isRemark {r : Record} (h : r.isRemark = true) : r.trigger? = none := by
  cases r with
  | broadcast message => cases h
  | _ => rfl

namespace World

def heard (w : World) : List Trigger :=
  w.log.toList.filterMap fun entry => entry.2.trigger?

theorem heard_note (w : World) (r : Record) : (w.note r).heard = w.heard ++ r.trigger?.toList := by
  simp only [heard, note, Array.toList_push, List.filterMap_append]
  cases hr : r.trigger? <;> simp [hr]

/-- Whatever is broadcast is sent, in the same order. -/
def Sends (w w' : World) : Prop :=
  ∃ ts, w'.heard = w.heard ++ ts ∧ w'.sent = w.sent ++ ts

theorem Sends.refl (w : World) : w.Sends w :=
  ⟨[], by simp, by simp⟩

theorem Sends.trans {w w' w'' : World} (h : w.Sends w') (h' : w'.Sends w'') : w.Sends w'' := by
  obtain ⟨ts, hh, hs⟩ := h
  obtain ⟨ts', hh', hs'⟩ := h'
  exact ⟨ts ++ ts', by rw [hh', hh, List.append_assoc], by rw [hs', hs, List.append_assoc]⟩

theorem Sends.of_eq {w w' : World} (hl : w'.log = w.log) (hs : w'.sent = w.sent) : w.Sends w' :=
  ⟨[], by simp [heard, hl], by simp [hs]⟩

theorem note_sends (w : World) {r : Record} (hr : r.trigger? = none) : w.Sends (w.note r) :=
  ⟨[], by simp [heard_note, hr], by simp [note]⟩

theorem Deed.sends {sprite : String} {w w' : World} (h : Deed sprite w w') : w.Sends w' := by
  cases h with
  | remark r hr => exact w.note_sends (Record.trigger?_of_isRemark hr)
  | start dice kind depth hw => exact note_sends _ rfl
  | mute =>
    unfold stopSounds
    split
    · exact (w.note_sends rfl).trans (.of_eq rfl rfl)
    · exact .of_eq rfl rfl
  | send message => exact ⟨[.broadcast message], w.heard_note _, rfl⟩
  | _ => exact .of_eq rfl rfl

theorem Deeds.sends {sprite : String} {w w' : World} (h : Deeds sprite w w') : w.Sends w' := by
  induction h with
  | refl => exact .refl w
  | tail _ hd ih => exact ih.trans hd.sends

end World

namespace Chain

theorem Stepped.sends {w w' : World} {c : Chain} {c' : Option Chain} (h : c.Stepped w w' c') :
    w.Sends w' := by
  cases h with
  | plain hc hw h' => exact hw.sends
  | ask hc hr hw question frames => exact hw.sends.trans (.of_eq rfl rfl)
  | request hc hw prompt frames =>
    refine hw.sends.trans ?_
    simp only [World.requestTexture]
    split
    · exact World.note_sends _ rfl
    · exact .of_eq rfl rfl
  | @settle w' d due request hc hw h' =>
    refine World.Sends.trans ?_ hw.sends
    unfold World.settled
    split <;> exact .of_eq rfl rfl
  | answered hc =>
    unfold World.afterReply
    split <;> exact .of_eq rfl rfl
  | _ => exact .refl w

theorem run_sends (scripts : Table Script) (fuel : Nat) (w : World) (c : Chain) :
    w.Sends (c.run scripts fuel w).1 := by
  apply run_induction (P := fun v _ => w.Sends v)
  · exact fun v d h => h.trans (step_cases scripts v d).sends
  · exact .refl w

end Chain

namespace Machine

/-- The triggers that an event sends: a click made during a run, and all that is broadcast. -/
def sentBy (m : Machine) (e : Event) (m' : Machine) : List Trigger :=
  match e with
  | .obey (.click sprite) => if m.world.state = .running then [.click sprite] else []
  | .resumeChain .. => m'.world.heard.drop m.world.heard.length
  | _ => []

/-- The triggers that a run handles in an event: first the one that started it, then those that
wait in its queue. -/
def handledBy (call : Nat) (m : Machine) (e : Event) (_ : Machine) : List Trigger :=
  match e, m.run? call with
  | .beginRun k, some r => if k = call then [r.first] else []
  | .handleTriggers k, some r => if k = call ∧ m.world.running = true then r.queue else []
  | _, _ => []

/-- The chains that a run has after an event and that are new. -/
def spawnedBy (call : Nat) (m : Machine) (_ : Event) (m' : Machine) : List Chain :=
  match m'.run? call with
  | some r => r.chains.filter (m.lastChain < ·.id)
  | none => []

def momentsBy (call id : Nat) (m : Machine) (e : Event) (_ : Machine) : List (World × Chain) :=
  match e with
  | .resumeChain fuel k i =>
    match if k = call ∧ i = id then m.resumable? call id else none with
    | some (scripts, c) => c.moments scripts fuel m.world
    | none => []
  | _ => []

theorem sentBy_asleep (m m' : Machine) (e : Event) :
    sentBy m.asleep e m'.asleep = sentBy m e m' :=
  rfl

theorem handledBy_asleep (call : Nat) (m m' : Machine) (e : Event) :
    handledBy call m.asleep e m'.asleep = handledBy call m e m' := by
  unfold handledBy
  rw [run?_asleep]
  cases m.run? call <;> cases e <;> rfl

theorem spawnedBy_asleep (call : Nat) (m m' : Machine) (e : Event) :
    spawnedBy call m.asleep e m'.asleep = spawnedBy call m e m' := by
  unfold spawnedBy
  rw [run?_asleep]
  cases m'.run? call <;> rfl

theorem momentsBy_asleep (call id : Nat) (m m' : Machine) (e : Event) :
    momentsBy call id m.asleep e m'.asleep = momentsBy call id m e m' := by
  unfold momentsBy
  simp only [resumable?_asleep]
  rfl

/-- A run that nobody stops, alone in its machine, after the triggers `sent` were sent to it and
`handled` were handled. It began when `last` chains had been started before, and `ms` are the
moments of its chains. -/
structure Unstopped (call last : Nat) (scripts : Table Script) (t : Trigger)
    (sent handled : List Trigger) (spawned : List Chain) (ms : Nat → List (World × Chain))
    (m : Machine) (r : Run) : Prop where
  state : m.world.state = .running
  running : m.world.running = true
  sender : m.world.sender = some call
  runs : m.runs = [r]
  call_eq : r.call = call
  scripts_eq : r.scripts = scripts
  first_eq : r.first = t
  starting : ∀ due, r.phase = .starting due → handled = [] ∧ r.queue = sent
  going : r.phase = .going → t :: sent = handled ++ r.queue
  spawned_eq : spawned = Chain.ofHats last (handled.flatMap (·.hats scripts))
  numbered : m.lastChain = last + spawned.length
  onTrack : ∀ c ∈ r.chains, c.OnTrack (ms c.id)
  completed : ∀ c ∈ spawned, c.id ∉ r.chains.map (·.id) → Chain.Completed scripts (ms c.id)
  moments : ∀ id, ∀ p ∈ ms id, p.1.running = true

section

variable {call last : Nat} {scripts : Table Script} {t : Trigger} {sent handled : List Trigger}
  {spawned : List Chain} {ms : Nat → List (World × Chain)} {m m' : Machine} {r : Run}

theorem run?_singleton (h : m.runs = [r]) : m.run? r.call = some r := by
  simp [run?, h]

theorem spawnedBy_old {r' : Run} (hm' : m'.runs = [r'])
    (h : ∀ c ∈ r'.chains, c.id ≤ m.lastChain) (e : Event) : spawnedBy r'.call m e m' = [] := by
  simp only [spawnedBy, run?_singleton hm', List.filter_eq_nil_iff, decide_eq_true_eq, Nat.not_lt]
  exact h

theorem host_quiet (call : Nat) {e : Event} (he : e.isHost = true) :
    sentBy m e m' = [] ∧ handledBy call m e m' = [] ∧ ∀ id, momentsBy call id m e m' = [] := by
  cases e with
  | obey c =>
    cases c with
    | click sprite => cases he
    | _ => exact ⟨rfl, rfl, fun _ => rfl⟩
  | edit e => exact ⟨rfl, rfl, fun _ => rfl⟩
  | change sprite f => exact ⟨rfl, rfl, fun _ => rfl⟩
  | rewind => exact ⟨rfl, rfl, fun _ => rfl⟩
  | _ => cases he

theorem Unstopped.quiet {e : Event} {r' : Run} (hm : m.Tidy)
    (h : Unstopped call last scripts t sent handled spawned ms m r) (hm' : m'.runs = [r'])
    (hw : m'.world.state = m.world.state ∧ m'.world.running = m.world.running ∧
      m'.world.sender = m.world.sender)
    (hl : m'.lastChain = m.lastChain) (hs : sentBy m e m' = []) (hh : handledBy call m e m' = [])
    (hmo : ∀ id, momentsBy call id m e m' = [])
    (hr : r'.call = r.call ∧ r'.scripts = r.scripts ∧ r'.first = r.first ∧ r'.phase = r.phase ∧
      r'.queue = r.queue) (hc : r'.chains.map (·.id) = r.chains.map (·.id))
    (hon : ∀ c ∈ r'.chains, c.OnTrack (ms c.id)) :
    Unstopped call last scripts t (sent ++ sentBy m e m') (handled ++ handledBy call m e m')
      (spawned ++ spawnedBy call m e m') (fun id => ms id ++ momentsBy call id m e m') m' r' := by
  obtain ⟨hcall, hscripts, hfirst, hphase, hqueue⟩ := hr
  have hsp : spawnedBy call m e m' = [] := by
    rw [← hcall.trans h.call_eq]
    refine spawnedBy_old hm' (fun c hc' => ?_) e
    obtain ⟨d, hd, he⟩ := List.mem_map.mp (hc ▸ List.mem_map_of_mem hc' : c.id ∈ r.chains.map _)
    exact he ▸ (hm.runs r (by simp [h.runs])).numbered d hd
  simp only [hs, hh, hsp, hmo, List.append_nil]
  constructor
  · exact hw.1.trans h.state
  · exact hw.2.1.trans h.running
  · exact hw.2.2.trans h.sender
  · exact hm'
  · exact hcall.trans h.call_eq
  · exact hscripts.trans h.scripts_eq
  · exact hfirst.trans h.first_eq
  · rw [hphase, hqueue]
    exact h.starting
  · rw [hphase, hqueue]
    exact h.going
  · exact h.spawned_eq
  · exact hl.trans h.numbered
  · exact hon
  · rw [hc]
    exact h.completed
  · exact h.moments

theorem Unstopped.spawns {hats : List (String × Script × Block)} {e : Event} {r' : Run}
    (h : Unstopped call last scripts t sent handled spawned ms m r) (new : List Trigger)
    (hm : m.Tidy)
    (hm' : m'.runs = [r'.withHats m.lastChain hats])
    (hw : m'.world.state = m.world.state ∧ m'.world.running = m.world.running ∧
      m'.world.sender = m.world.sender)
    (hl : m'.lastChain = m.lastChain + hats.length) (hs : sentBy m e m' = [])
    (hh : handledBy call m e m' = new) (hmo : ∀ id, momentsBy call id m e m' = [])
    (hats_eq : hats = new.flatMap (·.hats scripts))
    (hr : r'.call = r.call ∧ r'.scripts = r.scripts ∧ r'.first = r.first ∧ r'.phase = .going ∧
      r'.chains = r.chains) (hq : t :: sent = handled ++ new ++ r'.queue) :
    Unstopped call last scripts t (sent ++ sentBy m e m') (handled ++ handledBy call m e m')
      (spawned ++ spawnedBy call m e m') (fun id => ms id ++ momentsBy call id m e m') m'
      (r'.withHats m.lastChain hats) := by
  obtain ⟨hcall, hscripts, hfirst, hphase, hchains⟩ := hr
  have hold : ∀ c ∈ r.chains, c.id ≤ m.lastChain := (hm.runs r (by simp [h.runs])).numbered
  have hsp : spawnedBy call m e m' = Chain.ofHats m.lastChain hats := by
    have hrun : m'.run? call = some (r'.withHats m.lastChain hats) := by
      rw [← h.call_eq, ← hcall]
      exact run?_singleton hm'
    rw [spawnedBy, hrun]
    simp only [Run.withHats, List.filter_append, hchains]
    rw [List.filter_eq_nil_iff.mpr, List.nil_append, List.filter_eq_self.mpr]
    · exact fun c hc => by simpa using (Chain.id_of_mem_ofHats hc).1
    · exact fun c hc => by simpa using hold c hc
  have hlen : spawned.length = (handled.flatMap (·.hats scripts)).length := by
    rw [h.spawned_eq, Chain.length_ofHats]
  simp only [hs, hh, hsp, hmo, List.append_nil]
  constructor
  · exact hw.1.trans h.state
  · exact hw.2.1.trans h.running
  · exact hw.2.2.trans h.sender
  · exact hm'
  · exact hcall.trans h.call_eq
  · exact hscripts.trans h.scripts_eq
  · exact hfirst.trans h.first_eq
  · intro due hd
    cases hphase.symm.trans hd
  · exact fun _ => hq
  · rw [List.flatMap_append, Chain.ofHats_append, ← h.spawned_eq, ← hlen, ← h.numbered, ← hats_eq]
  · rw [hl, h.numbered, List.length_append, Chain.length_ofHats, Nat.add_assoc]
  · intro c hc
    rcases List.mem_append.mp hc with hc | hc
    · exact h.onTrack c (hchains ▸ hc)
    · obtain ⟨hf, blocks, hat, ht⟩ := Chain.start_of_mem_ofHats hc
      have hg : c.Grounded := ⟨by simp [hf], fun _ => by rw [ht]; rfl⟩
      exact hg.onTrack (.inr (by simp [ht])) _
  · intro c hc hn
    simp only [Run.withHats, List.map_append, List.mem_append, hchains, not_or] at hn
    rcases List.mem_append.mp hc with hc | hc
    · exact h.completed c hc hn.1
    · exact absurd (List.mem_map_of_mem hc) hn.2
  · exact h.moments

theorem runs_singleton {R₁ R₂ : List Run} {s : Run} (h : m.runs = [r])
    (hs : m.runs = R₁ ++ s :: R₂) : R₁ = [] ∧ s = r ∧ R₂ = [] := by
  rw [h] at hs
  cases R₁ with
  | nil =>
    cases hs
    exact ⟨rfl, rfl, rfl⟩
  | cons s' R₁ => simp at hs

theorem Unstopped.resumes {l₁ l₂ : List Chain} {c : Chain} {c' : Option Chain} {w' : World}
    {fuel : Nat} (hm : m.Tidy) (h : Unstopped call last scripts t sent handled spawned ms m r)
    (hl : r.chains = l₁ ++ c :: l₂) (hc : c.canResume m.world = true)
    (hrun : c.run r.scripts fuel m.world = (w', c')) {e : Event}
    (he : e = .resumeChain fuel r.call c.id)
    (hm' : m' = { m with
      world := { w' with sent := [] }
      runs := [{ r with chains := l₁ ++ l₂ ++ c'.toList }.taking w'.sender w'.sent] }) :
    ∃ r', Unstopped call last scripts t (sent ++ sentBy m e m') (handled ++ handledBy call m e m')
      (spawned ++ spawnedBy call m e m') (fun id => ms id ++ momentsBy call id m e m') m' r' := by
  subst he
  obtain ⟨hstate, hrunning, hsender⟩ := c.run_same_run r.scripts fuel m.world
  obtain ⟨ts, hheard, hsent⟩ := c.run_sends r.scripts fuel m.world
  have hfollows : Chain.Follows (ms c.id ++ c.moments r.scripts fuel m.world)
      (c.run r.scripts fuel m.world).2 :=
    Chain.run_follows h.running (h.onTrack c (by simp [hl])) fuel
  have hended (hn : (c.run r.scripts fuel m.world).2 = none) := Chain.moments_ended hn
  rw [hrun] at hstate hrunning hsender hheard hsent hfollows hended
  rw [hm.sent, List.nil_append] at hsent
  have hid : ∀ d ∈ c', d.id = c.id := fun d hd => (Chain.run_id (by rw [hrun]; exact hd)).1
  have htidy := hm.runs r (by simp [h.runs])
  have hback := htidy.putBack hl hid
  have hto : w'.sender = some r.call :=
    hsender.trans (h.sender.trans (congrArg some h.call_eq.symm))
  let back : Run := { r with chains := l₁ ++ l₂ ++ c'.toList }
  refine ⟨{ back with queue := r.queue ++ ts }, ?_⟩
  have hruns : m'.runs = [{ back with queue := r.queue ++ ts }] := by
    rw [hm']
    change [back.taking w'.sender w'.sent] = _
    rw [Run.taking_of_eq (r := back) hto, hsent]
  have hs : sentBy m (.resumeChain fuel r.call c.id) m' = ts := by
    have hw' : m'.world.heard = m.world.heard ++ ts := by rw [hm']; exact hheard
    simp [sentBy, hw']
  have hh : handledBy call m (.resumeChain fuel r.call c.id) m' = [] := rfl
  have hsp : spawnedBy call m (.resumeChain fuel r.call c.id) m' = [] := by
    rw [← h.call_eq]
    exact spawnedBy_old hruns hback.numbered _
  have hmo : momentsBy call c.id m (.resumeChain fuel r.call c.id) m' =
      c.moments r.scripts fuel m.world := by
    have hone : m.runs = [] ++ r :: [] := h.runs
    rw [momentsBy, if_pos ⟨h.call_eq, rfl⟩, ← h.call_eq, resumable?_of_split hm hone hl hc]
  have hmo' {id : Nat} (hne : id ≠ c.id) :
      momentsBy call id m (.resumeChain fuel r.call c.id) m' = [] := by
    rw [momentsBy, if_neg fun hi => hne hi.2.symm]
  have hne := key_ne_of_nodup Chain.id (hl ▸ htidy.ids)
  simp only [hs, hh, hsp, List.append_nil]
  constructor
  · rw [hm']
    exact hstate.trans h.state
  · rw [hm']
    exact hrunning.trans h.running
  · rw [hm']
    exact hsender.trans h.sender
  · exact hruns
  · exact h.call_eq
  · exact h.scripts_eq
  · exact h.first_eq
  · intro due hp
    obtain ⟨hhandled, hqueue⟩ := h.starting due hp
    exact ⟨hhandled, congrArg (· ++ ts) hqueue⟩
  · intro hp
    rw [← List.cons_append, h.going hp, List.append_assoc]
  · exact h.spawned_eq
  · rw [hm']
    exact h.numbered
  · intro d hd
    rcases List.mem_append.mp hd with hd | hd
    · rw [hmo' (hne d hd), List.append_nil]
      refine h.onTrack d ?_
      rw [hl]
      simp only [List.mem_append, List.mem_cons] at hd ⊢
      tauto
    · have hd' := Option.mem_toList.mp hd
      rw [hid d hd', hmo]
      rw [Option.mem_def.mp hd'] at hfollows
      exact hfollows
  · intro s hs' hn
    by_cases hi : s.id = c.id
    · rw [hi, hmo]
      cases c' with
      | some d => exact absurd (by simp [back, hid d rfl, hi]) hn
      | none =>
        rw [← h.scripts_eq]
        obtain ⟨p, hp, hnone⟩ := hended rfl
        refine ⟨hfollows, ⟨p, ?_, hnone⟩, ?_⟩
        · rw [List.getLast?_append, hp]
          rfl
        · intro p hp
          apply Chain.not_cutShort
          rcases List.mem_append.mp hp with hp | hp
          · exact h.moments c.id p hp
          · exact Chain.moments_running h.running fuel p hp
    · rw [hmo' hi, List.append_nil]
      refine h.completed s hs' fun hmem => hn ?_
      rw [hl] at hmem
      simp only [back, List.map_append, List.map_cons, List.mem_append, List.mem_cons] at hmem ⊢
      tauto
  · intro id p hp
    rcases List.mem_append.mp hp with hp | hp
    · exact h.moments id p hp
    · by_cases hi : id = c.id
      · subst hi
        rw [hmo] at hp
        exact Chain.moments_running h.running fuel p hp
      · rw [hmo' hi] at hp
        cases hp

theorem Unstopped.joins {sprite : String} (hm : m.Tidy)
    (h : Unstopped call last scripts t sent handled spawned ms m r) {e : Event}
    (he : e = .obey (.click sprite)) (hm' : m' =
      { m.mapRuns (·.taking m.world.sender [.click sprite]) with calls := m.calls + 1 }) :
    Unstopped call last scripts t (sent ++ sentBy m e m') (handled ++ handledBy call m e m')
      (spawned ++ spawnedBy call m e m') (fun id => ms id ++ momentsBy call id m e m') m'
      { r with queue := r.queue ++ [.click sprite] } := by
  subst he
  have hto : m.world.sender = some r.call := h.sender.trans (congrArg some h.call_eq.symm)
  have hruns : m'.runs = [{ r with queue := r.queue ++ [.click sprite] }] := by
    rw [hm']
    simp only [mapRuns, h.runs, List.map_cons, List.map_nil, Run.taking_of_eq hto]
  have hs : sentBy m (.obey (.click sprite)) m' = [.click sprite] := if_pos h.state
  have hh : handledBy call m (.obey (.click sprite)) m' = [] := rfl
  have hsp : spawnedBy call m (.obey (.click sprite)) m' = [] := by
    rw [← h.call_eq]
    exact spawnedBy_old hruns (hm.runs r (by simp [h.runs])).numbered _
  have hmo (id : Nat) : momentsBy call id m (.obey (.click sprite)) m' = [] := rfl
  simp only [hs, hh, hsp, hmo, List.append_nil]
  subst hm'
  refine { h with runs := hruns, starting := fun due hp => ?_, going := fun hp => ?_ }
  · obtain ⟨hhandled, hqueue⟩ := h.starting due hp
    exact ⟨hhandled, congrArg (· ++ [Trigger.click sprite]) hqueue⟩
  · rw [← List.cons_append, h.going hp, List.append_assoc]

theorem Outcome.unstopped {e : Event} (ho : Outcome m e m') (hm : m.Tidy)
    (h : Unstopped call last scripts t sent handled spawned ms m r) (hs : e ≠ .obey .stop)
    (hf : e ≠ .finish call) :
    ∃ r', Unstopped call last scripts t (sent ++ sentBy m e m') (handled ++ handledBy call m e m')
      (spawned ++ spawnedBy call m e m') (fun id => ms id ++ momentsBy call id m e m') m' r' := by
  cases ho with
  | host he hp hc =>
    refine ⟨r, h.quiet hm h.runs ⟨rfl, rfl, rfl⟩ rfl ?_ ?_ ?_ ⟨rfl, rfl, rfl, rfl, rfl⟩ rfl
      h.onTrack⟩
    · exact (host_quiet call he).1
    · exact (host_quiet call he).2.1
    · exact (host_quiet call he).2.2
  | tick ht =>
    exact ⟨r, h.quiet hm h.runs ⟨rfl, rfl, rfl⟩ rfl rfl rfl (fun _ => rfl)
      ⟨rfl, rfl, rfl, rfl, rfl⟩ rfl h.onTrack⟩
  | wakes =>
    exact ⟨r, h.quiet hm h.runs ⟨rfl, rfl, rfl⟩ rfl rfl rfl (fun _ => rfl)
      ⟨rfl, rfl, rfl, rfl, rfl⟩ rfl h.onTrack⟩
  | @rests fuel k i hn =>
    refine ⟨r, h.quiet hm h.runs ⟨rfl, rfl, rfl⟩ rfl ?_ rfl ?_ ⟨rfl, rfl, rfl, rfl, rfl⟩ rfl
      h.onTrack⟩
    · simp [sentBy]
    · intro id
      by_cases hi : k = call ∧ i = id
      · rw [momentsBy, if_pos hi, ← hi.1, ← hi.2, hn]
      · rw [momentsBy, if_neg hi]
  | join hs => exact ⟨_, h.joins hm rfl rfl⟩
  | opens hstart => exact absurd h.state (not_running_of_starts hstart)
  | stop => exact absurd rfl hs
  | @answer text ask rest ha =>
    refine ⟨{ r with chains := r.chains.map (·.receive ask text) }, h.quiet hm ?_ ⟨rfl, rfl, rfl⟩ rfl
      rfl rfl (fun _ => rfl) ⟨rfl, rfl, rfl, rfl, rfl⟩ ?_ ?_⟩
    · simp only [mapWorld, mapRuns, h.runs, List.map_cons, List.map_nil]
    · simp only [List.map_map, Function.comp_def, Chain.receive_id]
    · simp only [List.forall_mem_map, Chain.receive_id]
      exact fun c hc => (h.onTrack c hc).receive ask text
  | @begins R₁ R₂ s due hr hp hw =>
    obtain ⟨rfl, rfl, rfl⟩ := runs_singleton h.runs hr
    obtain ⟨hhandled, hqueue⟩ := h.starting due hp
    refine ⟨_, h.spawns [t] hm rfl ⟨rfl, rfl, rfl⟩ rfl rfl ?_ (fun _ => rfl) ?_
      ⟨rfl, rfl, rfl, rfl, rfl⟩ ?_⟩
    · simp [handledBy, ← h.call_eq, ← h.first_eq, run?_singleton h.runs]
    · rw [← h.scripts_eq, ← h.first_eq, List.flatMap_singleton]
    · rw [hhandled, hqueue]
      rfl
  | @handles R₁ R₂ s hats hr hp hh =>
    obtain ⟨rfl, rfl, rfl⟩ := runs_singleton h.runs hr
    rw [if_pos h.running] at hh
    refine ⟨_, h.spawns s.queue hm rfl ⟨rfl, rfl, rfl⟩ rfl rfl ?_ (fun _ => rfl) ?_
      ⟨rfl, rfl, rfl, hp, rfl⟩ ?_⟩
    · simp [handledBy, ← h.call_eq, run?_singleton h.runs, h.running]
    · rw [← h.scripts_eq]
      exact hh
    · rw [List.append_nil]
      exact h.going hp
  | resumes hr hl hc hrun =>
    obtain ⟨rfl, rfl, rfl⟩ := runs_singleton h.runs hr
    exact h.resumes hm hl hc hrun rfl rfl
  | finishes hr hover =>
    obtain ⟨rfl, rfl, rfl⟩ := runs_singleton h.runs hr
    exact absurd (congrArg Event.finish h.call_eq) hf

end

/-- Either no run is there, or one that goes on. -/
def Calm (m : Machine) : Prop :=
  m.world.state ≠ .running ∧ m.runs.length = 0 ∨
    m.world.state = .running ∧ m.world.running = true ∧ m.runs.length = 1

theorem calm_asleep {m : Machine} : m.asleep.Calm ↔ m.Calm := by
  simp only [Calm, asleep, lanes, List.length_map]

theorem Calm.of_eq {m m' : Machine} (h : m.Calm) (hs : m'.world.state = m.world.state)
    (hr : m'.world.running = m.world.running) (hl : m'.runs.length = m.runs.length) : m'.Calm := by
  rw [Calm, hs, hr, hl]
  exact h

theorem Outcome.calm {m m' : Machine} {e : Event} (h : Outcome m e m') (hm : m.Calm)
    (he : e ≠ .obey .stop) : m'.Calm := by
  cases h with
  | host he hp hc => exact hm
  | tick h => exact hm
  | wakes => exact hm
  | rests h => exact hm
  | join hs => exact hm.of_eq rfl rfl (List.length_map _)
  | opens h =>
    rcases hm with ⟨-, hm⟩ | ⟨hs, -⟩
    · exact .inr ⟨rfl, rfl, by simp [opened, hm]⟩
    · exact absurd hs (not_running_of_starts h)
  | stop => exact absurd rfl he
  | answer h => exact hm.of_eq rfl rfl (List.length_map _)
  | begins hr hp hw => exact hm.of_eq rfl rfl (by simp [hr])
  | handles hr hp hh => exact hm.of_eq rfl rfl (by simp [hr])
  | @resumes R₁ R₂ r l₁ l₂ c c' w' fuel hr hl hc hrun =>
    obtain ⟨hstate, hrunning, -⟩ := c.run_same_run r.scripts fuel m.world
    rw [hrun] at hstate hrunning
    exact hm.of_eq hstate hrunning (by simp [hr])
  | finishes hr ho =>
    refine .inl ⟨?_, ?_⟩
    · exact fun hf => m.world.state.finish_ne_running ((World.halted_state _).symm.trans hf)
    · simp only [Calm, hr, List.length_append, List.length_cons] at hm
      simp only [List.length_map, List.length_append]
      omega

theorem Calm.after {m m' : Machine} {es : List Event} (hc : m.Calm) (hm : m.Tidy)
    (h : m.after es = some m') (he : .obey .stop ∉ es) : m'.Calm := by
  refine after_induction (P := fun es m => .obey .stop ∉ es → m.Calm) (fun _ => hc) ?_ h he
  intro es m e m' hb hc he hn
  simp only [List.mem_append, List.mem_singleton, not_or] at hn
  have ho := next?_outcome (hm.after hb) he
  exact calm_asleep.mp (ho.calm (calm_asleep.mpr (hc hn.1)) fun h => hn.2 h.symm)

theorem Outcome.runs_of_running {m m' : Machine} {e : Event} (h : Outcome m e m')
    (hm : m.world.state = .running → m.runs ≠ []) (hs : m'.world.state = .running) :
    m'.runs ≠ [] := by
  cases h with
  | host | tick | wakes | rests => exact hm hs
  | join | answer => exact fun hr => hm hs (List.map_eq_nil_iff.mp hr)
  | opens h => simp [opened]
  | stop => exact absurd ((World.halted_state _).symm.trans hs) m.world.state.stop_ne_running
  | begins | handles | resumes => simp
  | finishes => exact absurd ((World.halted_state _).symm.trans hs) m.world.state.finish_ne_running

theorem Reachable.runs_of_running {m : Machine} (h : m.Reachable)
    (hs : m.world.state = .running) : m.runs ≠ [] := by
  obtain ⟨options, services, es, h⟩ := h
  refine after_induction (P := fun _ m => m.world.state = .running → m.runs ≠ [])
    (by simp [create]) (fun es m e m' hb ih he hs => ?_) h hs
  have ho := next?_outcome ((create_tidy .empty options services).after hb) he
  simpa [asleep, lanes] using ho.runs_of_running (by simpa [asleep, lanes] using ih) hs

theorem Reachable.calm {m : Machine} (h : m.Reachable) (hr : m.runs = []) : m.Calm :=
  .inl ⟨fun hs => h.runs_of_running hs hr, by simp [hr]⟩

theorem opened_unstopped {m : Machine} {c : Command} {t : Trigger} (hc : m.Calm)
    (h : m.starts c = some t) :
    Unstopped m.calls m.lastChain m.world.project.scripts t [] [] [] (fun _ => []) (m.opened t)
      (m.newRun t) := by
  have hruns : m.runs = [] := by
    rcases hc with ⟨-, hc⟩ | ⟨hs, -⟩
    · exact List.length_eq_zero_iff.mp hc
    · exact absurd hs (not_running_of_starts h)
  refine ⟨rfl, rfl, rfl, ?_, rfl, rfl, rfl, fun due _ => ⟨rfl, rfl⟩, fun hp => ?_, rfl, rfl, ?_, ?_,
    ?_⟩
  · simp [opened, hruns]
  · cases hp
  · simp [newRun]
  · simp
  · simp

theorem Unstopped.returns {call last : Nat} {scripts : Table Script} {t : Trigger}
    {sent handled : List Trigger} {spawned : List Chain} {ms : Nat → List (World × Chain)}
    {m : Machine} {r : Run} (h : Unstopped call last scripts t sent handled spawned ms m r)
    (ho : r.isOver m.world = true) :
    handled = t :: sent ∧ ∀ c ∈ spawned, Chain.Completed scripts (ms c.id) := by
  cases hp : r.phase with
  | starting due => simp [Run.isOver, hp, h.running] at ho
  | going =>
    simp only [Run.isOver, hp, Bool.and_eq_true, List.isEmpty_iff] at ho
    have hq := h.going hp
    rw [ho.1, List.append_nil] at hq
    exact ⟨hq.symm, fun c hc => h.completed c hc (by simp [ho.2])⟩

/-- The run that `t` starts handles its triggers in the order in which they are sent, each once, and
each starts one chain for every hat that it matches. When the call returns, all of them were handled
and every chain has come to the end of its blocks. -/
structure InOrder (m₀ : Machine) (t : Trigger) (m₁ : Machine) (during : List Event) (m : Machine) :
    Prop where
  handled : m₁.gather (handledBy m₀.calls) during <+: t :: m₁.gather sentBy during
  spawned : m₁.gather (spawnedBy m₀.calls) during = Chain.ofHats m₀.lastChain
    ((m₁.gather (handledBy m₀.calls) during).flatMap (·.hats m₀.world.project.scripts))
  present : (m.run? m₀.calls).isSome = true
  returned : (m.next? (.finish m₀.calls)).isSome = true →
    m₁.gather (handledBy m₀.calls) during = t :: m₁.gather sentBy during ∧
      ∀ chain ∈ m₁.gather (spawnedBy m₀.calls) during, Chain.Completed m₀.world.project.scripts
        (m₁.gather (momentsBy m₀.calls chain.id) during)

theorem Calm.inOrder {m₀ m₁ m : Machine} (hc₀ : m₀.Calm) (hm₀ : m₀.Tidy) {c : Command} {t : Trigger}
    (hstart : m₀.starts c = some t) (hopen : m₀.next? (.obey c) = some m₁) {during : List Event}
    (hduring : m₁.after during = some m) (hstop : .obey .stop ∉ during)
    (hfinish : .finish m₀.calls ∉ during) : m₀.InOrder t m₁ during m := by
  have hm₁ := hm₀.next hopen
  have hfirst : Unstopped m₀.calls m₀.lastChain m₀.world.project.scripts t [] [] [] (fun _ => [])
      m₁.asleep (m₀.asleep.newRun t) := by
    cases hopen
    rw [obey_opens hstart]
    exact opened_unstopped (calm_asleep.mpr hc₀) hstart
  -- The history of the run grows event by event; `Unstopped` ties it to the machine.
  have hlast : ∃ r, Unstopped m₀.calls m₀.lastChain m₀.world.project.scripts t
      (m₁.gather sentBy during) (m₁.gather (handledBy m₀.calls) during)
      (m₁.gather (spawnedBy m₀.calls) during)
      (fun id => m₁.gather (momentsBy m₀.calls id) during) m.asleep r := by
    refine after_induction (P := fun es m => .obey .stop ∉ es → .finish m₀.calls ∉ es →
      ∃ r, Unstopped m₀.calls m₀.lastChain m₀.world.project.scripts t (m₁.gather sentBy es)
        (m₁.gather (handledBy m₀.calls) es) (m₁.gather (spawnedBy m₀.calls) es)
        (fun id => m₁.gather (momentsBy m₀.calls id) es) m.asleep r)
      (fun _ _ => ⟨_, hfirst⟩) ?_ hduring hstop hfinish
    intro es m' e m'' hes ih he hs hf
    simp only [List.mem_append, List.mem_singleton, not_or] at hs hf
    obtain ⟨r, hr⟩ := ih hs.1 hf.1
    have hm' := hm₁.after hes
    have hnext := (next?_outcome hm' he).unstopped (tidy_asleep.mpr hm') hr (fun h => hs.2 h.symm)
      fun h => hf.2 h.symm
    simp only [gather_snoc hes he]
    simpa only [sentBy_asleep, handledBy_asleep, spawnedBy_asleep, momentsBy_asleep] using hnext
  obtain ⟨r, h⟩ := hlast
  have hrun := run?_singleton h.runs
  rw [h.call_eq, run?_asleep] at hrun
  obtain ⟨s, hs, rfl⟩ := Option.map_eq_some_iff.mp hrun
  refine ⟨?_, h.spawned_eq, by rw [hs]; rfl, fun hnext => ?_⟩
  · cases hp : s.phase with
    | starting due =>
      rw [(h.starting due hp).1]
      exact List.nil_prefix
    | going =>
      rw [h.going hp]
      exact List.prefix_append _ _
  · simp only [next?, hs, Option.any_some] at hnext
    split at hnext
    · rename_i ho
      exact h.returns ho
    · cases hnext

end Machine

end BlockScript

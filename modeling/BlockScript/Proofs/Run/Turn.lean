import BlockScript.Proofs.Run.Rota

/-! A machine with a run of private chains takes its turns by a rota: however its fuel is spent,
what it does is a number of turns, and when no chain is left the run ends. -/

namespace BlockScript

theorem Chain.Private.hearsCut {c : Chain} (h : c.Private) (generation : Nat) :
    c.hearsCut generation = false := by
  have htask := h.task
  unfold Chain.hearsCut
  split
  · rename_i ht
    rw [ht] at htask
    cases htask
  · rfl

theorem Chain.mem_ofHats {last : Nat} {hats : List (String × Script × Block)} {c : Chain}
    (h : c ∈ ofHats last hats) :
    ∃ hat ∈ hats, c.sprite = hat.1 ∧ c.frames = [] ∧ c.task = .start hat.2.1.blocks hat.2.2 := by
  induction hats generalizing last with
  | nil => cases h
  | cons hat hats ih =>
    rcases List.mem_cons.mp h with rfl | h
    · exact ⟨hat, List.mem_cons_self, rfl, rfl, rfl⟩
    · obtain ⟨hat', hmem, hc⟩ := ih h
      exact ⟨hat', List.mem_cons_of_mem hat hmem, hc⟩

theorem Trigger.mem_of_mem_hats {t : Trigger} {scripts : Table Script}
    {hat : String × Script × Block} (h : hat ∈ t.hats scripts) : (hat.1, hat.2.1) ∈ scripts := by
  obtain ⟨⟨sprite, script⟩, hs, hhat⟩ := List.mem_flatMap.mp h
  obtain ⟨b, -, rfl⟩ := List.mem_map.mp hhat
  exact hs

namespace Rota

/-- No chain is ready, but some are waiting. -/
structure Idle (a : Rota) : Prop where
  ready : a.ready = []
  waiting : a.waiting ≠ []

theorem isOver_of_le {scripts : Table Script} {a : Rota} {n k : Nat}
    (h : ((turn scripts)^[n] a).IsOver) (hle : n ≤ k) : ((turn scripts)^[k] a).IsOver := by
  obtain ⟨i, rfl⟩ := Nat.exists_eq_add_of_le' hle
  rw [Function.iterate_add_apply, h.turns]
  exact h

/-- The chains of a run: the ready ones in any place, the waiting ones in their order. -/
structure Lines (a : Rota) (chains : List Chain) : Prop where
  nodup : (chains.map (·.id)).Nodup
  distinct : (a.ready.map (·.id)).Nodup
  ready : ∀ c ∈ a.ready, c ∈ chains
  waiting : chains.filter (fun c => !(a.ready.map (·.id)).contains c.id) = a.waiting

theorem Lines.mem {a : Rota} {chains : List Chain} (h : a.Lines chains) {c : Chain}
    (hc : c ∈ chains) : c ∈ a.ready ++ a.waiting := by
  by_cases hid : c.id ∈ a.ready.map (·.id)
  · obtain ⟨d, hd, he⟩ := List.mem_map.mp hid
    have heq : d = c := List.inj_on_of_nodup_map h.nodup (h.ready d hd) hc he
    exact List.mem_append_left _ (heq ▸ hd)
  · rw [← h.waiting]
    refine List.mem_append_right _ (List.mem_filter.mpr ⟨hc, ?_⟩)
    simpa using hid

theorem Lines.eq_nil_iff {a : Rota} {chains : List Chain} (h : a.Lines chains) :
    chains = [] ↔ a.IsOver := by
  constructor
  · rintro rfl
    refine ⟨List.eq_nil_iff_forall_not_mem.mpr fun c hc => ?_, h.waiting.symm⟩
    exact List.not_mem_nil (h.ready c hc)
  · intro ha
    refine List.eq_nil_iff_forall_not_mem.mpr fun c hc => ?_
    have hmem := h.mem hc
    rw [ha.ready, ha.waiting] at hmem
    cases hmem

theorem Lines.put {w : World} {c : Chain} {ready waiting chains : List Chain}
    (h : Lines ⟨w, c :: ready, waiting⟩ chains) {next : Option Chain}
    (hn : ∀ d ∈ next, d.id = c.id) (w' : World) :
    Lines (put w' ready waiting next) (chains.filter (·.id != c.id) ++ next.toList) := by
  have hdistinct := h.distinct
  rw [List.map_cons, List.nodup_cons] at hdistinct
  obtain ⟨hfresh, hdistinct⟩ := hdistinct
  have hothers : ∀ d ∈ ready, d ∈ chains.filter (·.id != c.id) := by
    intro d hd
    refine List.mem_filter.mpr ⟨h.ready d (List.mem_cons_of_mem c hd), ?_⟩
    have hne : d.id ≠ c.id := fun he => hfresh (he ▸ List.mem_map_of_mem hd)
    simpa using hne
  have hnodup : ((chains.filter (·.id != c.id)).map (·.id)).Nodup :=
    h.nodup.sublist (List.filter_sublist.map _)
  have hwaiting : (chains.filter (·.id != c.id)).filter
      (fun d => !(ready.map (·.id)).contains d.id) = waiting := by
    rw [List.filter_filter]
    refine Eq.trans (List.filter_congr fun d _ => ?_) h.waiting
    by_cases hd : d.id = c.id <;> simp [hd]
  have hwaiting' : (chains.filter (·.id != c.id)).filter
      (fun d => !(c.id :: ready.map (·.id)).contains d.id) = waiting := by
    rw [List.filter_filter]
    refine Eq.trans (List.filter_congr fun d _ => ?_) h.waiting
    by_cases hd : d.id = c.id <;> simp [hd]
  cases next with
  | none =>
    rw [Option.toList_none, List.append_nil]
    exact ⟨hnodup, hdistinct, hothers, hwaiting⟩
  | some d =>
    have hd := hn d rfl
    have hnodup' : ((chains.filter (·.id != c.id) ++ [d]).map (·.id)).Nodup := by
      rw [List.map_append, List.nodup_append']
      refine ⟨hnodup, List.nodup_singleton _, ?_⟩
      simp [hd]
    rw [Option.toList_some, Rota.put]
    by_cases hw : d.isWaiting = true
    · rw [if_pos hw]
      refine ⟨hnodup', hdistinct, fun e he => List.mem_append_left _ (hothers e he), ?_⟩
      rw [List.filter_append, hwaiting, List.filter_cons_of_pos]
      · rfl
      · simpa [hd] using hfresh
    · rw [if_neg hw]
      refine ⟨hnodup', ?_, ?_, ?_⟩
      · rw [List.map_cons, hd]
        exact h.distinct
      · rw [List.forall_mem_cons]
        exact ⟨List.mem_append_right _ List.mem_cons_self,
          fun e he => List.mem_append_left _ (hothers e he)⟩
      · rw [List.map_cons, hd, List.filter_append, hwaiting', List.filter_cons_of_neg]
        · exact List.append_nil _
        · simp [hd]

theorem Lines.wake {w : World} {waiting chains : List Chain} (h : Lines ⟨w, [], waiting⟩ chains)
    (time : Nat) :
    chains = waiting ∧ Lines ⟨{ w with now := time }, waiting.filter (·.isDue time),
      waiting.filter fun c => !c.isDue time⟩ chains := by
  obtain rfl : chains = waiting :=
    Eq.trans (List.filter_eq_self.mpr fun _ _ => rfl).symm h.waiting
  refine ⟨rfl, h.nodup, h.nodup.sublist (List.filter_sublist.map _),
    fun c hc => List.mem_of_mem_filter hc, ?_⟩
  apply List.filter_congr
  intro c hc
  congr 1
  rw [Bool.eq_iff_iff, List.contains_iff_mem]
  constructor
  · intro hid
    obtain ⟨d, hd, he⟩ := List.mem_map.mp hid
    obtain ⟨hmem, hdue⟩ := List.mem_filter.mp hd
    have heq : d = c := List.inj_on_of_nodup_map h.nodup hmem hc he
    exact heq ▸ hdue
  · intro hdue
    exact List.mem_map_of_mem (List.mem_filter.mpr ⟨hc, hdue⟩)

/-- A resumption is a number of turns of the first ready chain. -/
theorem run_turns (scripts : Table Script) (fuel : Nat) (w : World) (c : Chain)
    (ready waiting : List Chain) :
    ∃ n, 0 < n ∧ (turn scripts)^[n] ⟨w, c :: ready, waiting⟩ =
      put (c.run scripts (fuel + 1) w).1 ready waiting (c.run scripts (fuel + 1) w).2 := by
  induction fuel generalizing w c with
  | zero =>
    refine ⟨1, Nat.one_pos, ?_⟩
    simp only [Function.iterate_one, turn, Chain.run]
    obtain ⟨w', _ | d⟩ := c.step scripts w
    · rfl
    · simp only
      split <;> rfl
  | succ fuel ih =>
    rw [Chain.run]
    have hturn : turn scripts ⟨w, c :: ready, waiting⟩ =
        put (c.step scripts w).1 ready waiting (c.step scripts w).2 := rfl
    generalize c.step scripts w = p at hturn
    obtain ⟨w', _ | d⟩ := p
    · exact ⟨1, Nat.one_pos, hturn⟩
    · simp only
      by_cases hd : d.isWaiting = true
      · rw [if_pos hd]
        exact ⟨1, Nat.one_pos, hturn⟩
      · rw [if_neg hd]
        obtain ⟨n, -, hn⟩ := ih w' d
        refine ⟨n + 1, Nat.succ_pos n, ?_⟩
        rw [Function.iterate_succ_apply, hturn, put, if_neg hd, hn]

end Rota

namespace Machine

/-- The only run of the machine, which is going on, goes by the rota `a`. -/
structure Follows (call : Nat) (scripts : Table Script) (m : Machine) (chains : List Chain)
    (a : Rota) : Prop where
  attached : m.attached = true
  world : m.world = a.world
  runs : ∃ first, m.runs = [⟨call, scripts, first, .going, [], chains, a.ready.map (·.id)⟩]
  lines : a.Lines chains
  valid : a.Valid

theorem mapRuns_same {m : Machine} {f : Run → Run} (h : ∀ r ∈ m.runs, f r = r) :
    m.mapRuns f = m := by
  have hmap : m.runs.map f = m.runs := (List.map_congr_left h).trans (List.map_id _)
  rw [mapRuns, hmap]

theorem deliver_idle {m : Machine} (hsent : m.world.sent = [])
    (hcut : ∀ r ∈ m.runs, ∀ c ∈ r.chains, c.hearsCut m.world.generation = false) :
    m.deliver = m := by
  have htake (call : Nat) :
      (m.mapRun call fun r => { r with queue := r.queue ++ m.world.sent }) = m := by
    apply mapRuns_same
    intro r _
    simp only [hsent, List.append_nil, ite_self]
  have hclear : (m.mapWorld fun w => { w with sent := [] }) = m := by
    rw [mapWorld, ← hsent]
  have hwake : m.mapRuns (·.wake (·.hearsCut m.world.generation)) = m := by
    apply mapRuns_same
    intro r hr
    have hnone : (r.chains.filter fun c =>
        c.hearsCut m.world.generation && !r.ready.contains c.id) = [] :=
      List.filter_eq_nil_iff.mpr fun c hc => by simp [hcut r hr c hc]
    rw [Run.wake, hnone, List.map_nil, List.append_nil]
  cases hs : m.world.sender with
  | none =>
    simp only [deliver, hs]
    rw [hclear, hwake]
  | some call =>
    simp only [deliver, hs]
    rw [htake, hclear, hwake]
section

variable {call : Nat} {scripts : Table Script} {m : Machine} {chains : List Chain} {a : Rota}

theorem Follows.run? (h : Follows call scripts m chains a) :
    ∃ first, m.run? call = some ⟨call, scripts, first, .going, [], chains, a.ready.map (·.id)⟩ := by
  obtain ⟨first, hruns⟩ := h.runs
  exact ⟨first, by simp [Machine.run?, hruns]⟩

/-- Resuming the first ready chain is a number of turns. -/
theorem Follows.resume {w : World} {c : Chain} {ready waiting : List Chain}
    (h : Follows call scripts m chains ⟨w, c :: ready, waiting⟩) (fuel : Nat) :
    ∃ chains' n, 0 < n ∧ Follows call scripts (m.resumeChain (fuel + 1) call c.id).1 chains'
      ((Rota.turn scripts)^[n] ⟨w, c :: ready, waiting⟩) := by
  obtain ⟨first, hruns⟩ := h.runs
  obtain ⟨n, hpos, hn⟩ := Rota.run_turns scripts fuel w c ready waiting
  have hvalid := h.valid.turns scripts n
  rw [hn] at hvalid
  have hid : ∀ d ∈ (c.run scripts (fuel + 1) w).2, d.id = c.id := fun d hd => (Chain.run_id hd).1
  have hlines := h.lines.put hid (c.run scripts (fuel + 1) w).1
  -- The machine while the chain is resumed.
  let unready : Machine :=
    { m with runs := [⟨call, scripts, first, .going, [], chains, ready.map (·.id)⟩] }
  have hunready : (m.mapRun call fun r => { r with ready := r.ready.erase c.id }) = unready := by
    simp [mapRun, mapRuns, hruns, unready]
  have hfind : chains.find? (·.id == c.id) = some c := by
    obtain ⟨l₁, l₂, hl⟩ := List.append_of_mem (h.lines.ready c List.mem_cons_self)
    rw [hl]
    exact find?_id (hl ▸ h.lines.nodup)
  have hlook : (unready.run? call).bind (fun r =>
      (r.chains.find? (·.id == c.id)).map ((r.scripts, ·))) = some (scripts, c) := by
    simp [Machine.run?, unready, hfind]
  have hworld : m.world = w := h.world
  have hresume : (m.resumeChain (fuel + 1) call c.id).1 =
      ({ unready with world := (c.run scripts (fuel + 1) w).1 }.putBack call c.id
        (c.run scripts (fuel + 1) w).2).deliver := by
    have hcan : c.canResume unready.world = true := by
      change c.canResume m.world = true
      rw [hworld]
      exact h.valid.ready c List.mem_cons_self
    have hrun : c.run scripts (fuel + 1) unready.world = c.run scripts (fuel + 1) w :=
      congrArg (fun v => c.run scripts (fuel + 1) v) hworld
    simp only [resumeChain, hunready, hlook]
    rw [if_pos hcan, hrun]
  generalize c.run scripts (fuel + 1) w = p at hn hvalid hlines hresume
  obtain ⟨w', next⟩ := p
  refine ⟨chains.filter (·.id != c.id) ++ next.toList, n, hpos, ?_⟩
  rw [hn]
  have hput : { unready with world := w' }.putBack call c.id next = { m with
      world := w'
      runs := [⟨call, scripts, first, .going, [], chains.filter (·.id != c.id) ++ next.toList,
        (Rota.put w' ready waiting next).ready.map (·.id)⟩] } := by
    cases next with
    | none => simp [putBack, mapRun, mapRuns, unready, Rota.put]
    | some d =>
      by_cases hd : d.isWaiting = true <;> simp [putBack, mapRun, mapRuns, unready, Rota.put, hd]
  have hput_world : (Rota.put w' ready waiting next).world = w' := by
    cases next with
    | none => rfl
    | some d =>
      rw [Rota.put]
      split <;> rfl
  rw [hresume, hput, deliver_idle]
  · exact ⟨h.attached, hput_world.symm, ⟨first, rfl⟩, hlines, hvalid⟩
  · have hsent := hvalid.sent
    rw [hput_world] at hsent
    exact hsent
  · intro r hr d hd
    cases List.mem_singleton.mp hr
    exact (hvalid.chains d (hlines.mem hd)).hearsCut _

theorem Follows.pass (h : Follows call scripts m chains a) (fuel turns : Nat) :
    ∃ chains' n, Follows call scripts (m.pass (fuel + 1) turns call).1 chains'
      ((Rota.turn scripts)^[n] a) ∧ (0 < turns → a.ready ≠ [] → 0 < n) := by
  induction turns generalizing m chains a with
  | zero => exact ⟨chains, 0, h, fun hpos => absurd hpos (Nat.lt_irrefl 0)⟩
  | succ turns ih =>
    obtain ⟨first, hrun⟩ := h.run?
    obtain ⟨w, ready, waiting⟩ := a
    rw [Machine.pass, hrun]
    cases ready with
    | nil => exact ⟨chains, 0, h, fun _ hne => absurd rfl hne⟩
    | cons c ready =>
      obtain ⟨chains', n, hpos, hn⟩ := h.resume fuel
      simp only [Option.bind_some, List.map_cons, List.head?_cons]
      generalize m.resumeChain (fuel + 1) call c.id = p at hn
      obtain ⟨m', _ | _⟩ := p
      · obtain ⟨chains'', k, hk, -⟩ := ih hn
        refine ⟨chains'', k + n, ?_, fun _ _ => by omega⟩
        rw [Function.iterate_add_apply]
        exact hk
      · exact ⟨chains', n, hn, fun _ _ => hpos⟩

/-- The run of the machine has ended in the world `w`, and all sprites are silent. -/
structure Ended (m : Machine) (w : World) : Prop where
  runs : m.runs = []
  sprites : ∀ id, m.stage.sprite? id = (w.stage.sprite? id).map Sprite.hush

theorem Follows.finish (h : Follows call scripts m chains a) : (m.finish call).Ended a.world := by
  obtain ⟨first, hruns⟩ := h.runs
  let left := { m.mapWorld fun w => { w with state := w.state.finish, sender := none } with
    runs := m.runs.filter (·.call != call) }
  have hleft : left.asleep.runs = [] := by simp [left, asleep, lanes, hruns]
  have hhalt : left.halt.asleep =
      (left.asleep.mapRuns (·.silenced m.world.asks)).mapWorld World.halted :=
    halt_asleep h.attached
  have hfinish : (m.finish call).asleep =
      left.halt.asleep.mapWorld fun w => w.note (.runFinished w.state) := rfl
  rw [hhalt] at hfinish
  constructor
  · have hlanes : (m.finish call).lanes = left.asleep.runs.map (·.silenced m.world.asks) :=
      congrArg Machine.runs hfinish
    rw [hleft] at hlanes
    exact List.map_eq_nil_iff.mp hlanes
  · intro id
    have hstage : (m.finish call).stage = left.world.halted.stage :=
      congrArg (fun m => m.world.stage) hfinish
    rw [hstage, World.halted_stage, ← h.world]
    exact Table.get?_mapValues Sprite.hush m.stage.sprites id

theorem Follows.handleTriggers (h : Follows call scripts m chains a) :
    m.handleTriggers call = m := by
  obtain ⟨first, hrun⟩ := h.run?
  obtain ⟨first', hruns⟩ := h.runs
  have hsame : (m.mapRun call fun r => { r with queue := [] }) = m := by
    apply mapRuns_same
    intro r hr
    rw [hruns] at hr
    cases List.mem_singleton.mp hr
    rw [ite_self]
  simp only [Machine.handleTriggers, hrun, hsame, List.foldl_nil, ite_self]

theorem Follows.alive (h : Follows call scripts m chains a) : m.alive call = chains.length := by
  obtain ⟨first, hrun⟩ := h.run?
  rw [Machine.alive, hrun]

/-- A poll is a number of turns, after the last of which the run ends. If it does not end, then
there was something to do, and some turns were taken. -/
theorem Follows.poll (h : Follows call scripts m chains a) (fuel : Nat) :
    (∃ chains' n, Follows call scripts (poll fuel m call) chains' ((Rota.turn scripts)^[n] a) ∧
      (0 < fuel → ¬ a.IsOver ∧ (a.ready ≠ [] → 0 < n))) ∨
    ∃ n, ((Rota.turn scripts)^[n] a).IsOver ∧
      (poll fuel m call).Ended ((Rota.turn scripts)^[n] a).world := by
  induction fuel generalizing m chains a with
  | zero => exact .inl ⟨chains, 0, h, fun hpos => absurd hpos (Nat.lt_irrefl 0)⟩
  | succ fuel ih =>
    obtain ⟨first, hrun⟩ := h.run?
    simp only [Machine.poll, hrun, h.handleTriggers, h.alive]
    by_cases hlen : chains.length = 0
    · rw [if_pos hlen]
      have hover := h.lines.eq_nil_iff.mp (List.eq_nil_of_length_eq_zero hlen)
      exact .inr ⟨0, hover, h.finish⟩
    · rw [if_neg hlen]
      have hover : ¬ a.IsOver := fun ha => hlen (by rw [h.lines.eq_nil_iff.mpr ha]; rfl)
      obtain ⟨chains', n, hn, hpos⟩ := h.pass fuel chains.length
      generalize m.pass (fuel + 1) chains.length call = p at hn
      obtain ⟨m', _ | _⟩ := p
      · exact .inl ⟨chains', n, hn, fun _ => ⟨hover, hpos (Nat.pos_of_ne_zero hlen)⟩⟩
      · rcases ih hn with ⟨chains'', k, hk, -⟩ | ⟨k, hk, hend⟩
        · refine .inl ⟨chains'', k + n, ?_, fun _ => ⟨hover, fun hne => ?_⟩⟩
          · rw [Function.iterate_add_apply]
            exact hk
          · have := hpos (Nat.pos_of_ne_zero hlen) hne
            omega
        · rw [← Function.iterate_add_apply] at hk hend
          exact .inr ⟨k + n, hk, hend⟩

theorem Follows.canGo_iff (h : Follows call scripts m chains a) :
    m.runs.any (·.canGo m.world) = true ↔ ¬ a.Idle := by
  obtain ⟨first, hruns⟩ := h.runs
  have hchains := h.lines.eq_nil_iff
  rw [hruns, List.any_cons, List.any_nil, Bool.or_false, Run.canGo]
  simp only [List.isEmpty_nil, Bool.not_true, Bool.false_or, Bool.or_eq_true, Bool.not_eq_true',
    List.isEmpty_eq_false_iff, List.isEmpty_iff, ne_eq, List.map_eq_nil_iff, hchains]
  constructor
  · rintro (hne | hover) hidle
    · exact hne hidle.ready
    · exact hidle.waiting hover.waiting
  · intro hidle
    by_cases hready : a.ready = []
    · by_cases hwaiting : a.waiting = []
      · exact .inr ⟨hready, hwaiting⟩
      · exact absurd ⟨hready, hwaiting⟩ hidle
    · exact .inl hready

theorem settle_of_runs (fuel rounds : Nat) (h : m.runs = []) : settle fuel rounds m = m := by
  cases rounds with
  | zero => rfl
  | succ rounds => simp [settle, h]

/-- What settling by the rota `a` leaves after a number of turns: the run goes on, and then no chain
is ready if `a` comes to its end in fewer than `rounds` turns, or it has ended. -/
def Settled (call : Nat) (scripts : Table Script) (a : Rota) (rounds : Nat) (m : Machine) : Prop :=
  (∃ chains n, Follows call scripts m chains ((Rota.turn scripts)^[n] a) ∧
    ∀ last < rounds, ((Rota.turn scripts)^[last] a).IsOver → ((Rota.turn scripts)^[n] a).Idle) ∨
  ∃ n, ((Rota.turn scripts)^[n] a).IsOver ∧ m.Ended ((Rota.turn scripts)^[n] a).world

theorem Settled.of_turns {n rounds rounds' : Nat}
    (h : Settled call scripts ((Rota.turn scripts)^[n] a) rounds m)
    (hrounds : ∀ last < rounds', ((Rota.turn scripts)^[last] a).IsOver → last - n < rounds) :
    Settled call scripts a rounds' m := by
  rcases h with ⟨chains, k, hk, hidle⟩ | ⟨k, hk, hend⟩
  · rw [← Function.iterate_add_apply] at hk hidle
    refine .inl ⟨chains, k + n, hk, fun last hlast hover => ?_⟩
    apply hidle (last - n) (hrounds last hlast hover)
    rw [← Function.iterate_add_apply]
    exact Rota.isOver_of_le hover (by omega)
  · rw [← Function.iterate_add_apply] at hk hend
    exact .inr ⟨k + n, hk, hend⟩

theorem Follows.settle (h : Follows call scripts m chains a) (fuel rounds : Nat) :
    Settled call scripts a rounds (settle (fuel + 1) rounds m) := by
  induction rounds generalizing m chains a with
  | zero => exact .inl ⟨chains, 0, h, fun last hlast => absurd hlast (Nat.not_lt_zero last)⟩
  | succ rounds ih =>
    have hcan := h.canGo_iff
    rw [Machine.settle]
    by_cases hidle : a.Idle
    · rw [if_neg (fun hc => hcan.mp hc hidle)]
      exact .inl ⟨chains, 0, h, fun _ _ _ => hidle⟩
    · obtain ⟨first, hruns⟩ := h.runs
      have hpolls : (m.runs.map (·.call)).foldl (Machine.poll (fuel + 1)) m =
          Machine.poll (fuel + 1) m call := by
        rw [hruns]
        rfl
      rw [if_pos (hcan.mpr hidle), hpolls]
      rcases h.poll (fuel + 1) with ⟨chains', n, hn, hpos⟩ | ⟨n, hn, hend⟩
      · obtain ⟨ha, hpos⟩ := hpos (Nat.succ_pos fuel)
        apply (ih hn).of_turns
        intro last hlast hover
        -- Some chain was ready, so the end has come closer.
        have hready : a.ready ≠ [] := fun hr => hidle ⟨hr, fun hw => ha ⟨hr, hw⟩⟩
        have hcloser := hpos hready
        have hne : last ≠ 0 := by
          rintro rfl
          exact ha hover
        omega
      · rw [settle_of_runs (fuel + 1) rounds hend.runs]
        exact .inr ⟨n, hn, hend⟩

theorem Follows.poll_settle (h : Follows call scripts m chains a) (fuel fuel' rounds : Nat) :
    Settled call scripts a rounds
      (Machine.settle (fuel' + 1) rounds (Machine.poll fuel m call)) := by
  rcases h.poll fuel with ⟨chains', n, hn, -⟩ | ⟨n, hn, hend⟩
  · apply (hn.settle fuel' rounds).of_turns
    intro last hlast _
    omega
  · rw [settle_of_runs (fuel' + 1) rounds hend.runs]
    exact .inr ⟨n, hn, hend⟩

/-- When no chain is ready, the clock goes on to the next time, and the timers of that time are the
next turn. -/
theorem Follows.fire (h : Follows call scripts m chains a) (hready : a.ready = []) {time : Nat}
    (hmin : (a.waiting.filterMap (·.due?)).min? = some time) :
    Follows call scripts (m.mapWorld fun w => { w with now := time }).fireTimers chains
      (a.turn scripts) := by
  obtain ⟨w, ready, waiting⟩ := a
  obtain rfl : ready = [] := hready
  obtain ⟨first, hruns⟩ := h.runs
  obtain ⟨rfl, hlines⟩ := h.lines.wake time
  have hworld : m.world = w := h.world
  have hwake : (chains.filter fun c => c.isDue time && !([] : List Nat).contains c.id) =
      chains.filter (·.isDue time) :=
    List.filter_congr fun c _ => Bool.and_true _
  have hturn : Rota.turn scripts ⟨w, [], chains⟩ = ⟨{ w with now := time },
      chains.filter (·.isDue time), chains.filter fun c => !c.isDue time⟩ := by
    simp only [Rota.turn]
    rw [hmin]
  rw [hturn]
  refine ⟨h.attached, congrArg (fun w : World => { w with now := time }) hworld, ⟨first, ?_⟩,
    hlines, h.valid.wake time⟩
  simp only [fireTimers, mapRuns, mapWorld, hruns, List.map_cons, List.map_nil, Run.wake]
  exact congrArg (fun l : List Chain =>
    [(⟨call, scripts, first, .going, [], chains, l.map (·.id)⟩ : Run)]) hwake

end

theorem foldl_startChain_run (hats : List (String × Script × Block)) {m : Machine} {r : Run}
    (h : m.runs = [r]) :
    hats.foldl (startChain r.call) m = { m with
      world := m.world.withStarts hats
      runs := [{ r with
        chains := r.chains ++ Chain.ofHats m.lastChain hats
        ready := r.ready ++ (Chain.ofHats m.lastChain hats).map (·.id) }]
      lastChain := m.lastChain + hats.length } := by
  induction hats generalizing m r with
  | nil =>
    simp only [List.foldl_nil, Chain.ofHats, List.map_nil, List.append_nil, ← h]
    rfl
  | cons hat hats ih =>
    obtain ⟨sprite, script, hat⟩ := hat
    let chain : Chain := ⟨m.lastChain + 1, sprite, [], .start script.blocks hat⟩
    let r' : Run := { r with chains := r.chains ++ [chain], ready := r.ready ++ [chain.id] }
    have hstart : (startChain r.call m (sprite, script, hat)).runs = [r'] := by
      simp [startChain, mapRun, mapRuns, mapWorld, h, r', chain]
    rw [List.foldl_cons]
    have hrest := ih hstart
    simp only [r', List.append_assoc] at hrest
    have hlength : m.lastChain + 1 + hats.length = m.lastChain + (hats.length + 1) := by omega
    rw [hrest, List.length_cons, ← hlength]
    rfl

/-- A run of private scripts begins by a rota in which all chains are ready. -/
theorem beginRun_follows {call : Nat} {scripts : Table Script} {m : Machine} {first : Trigger}
    {due : Nat} (hruns : m.runs = [⟨call, scripts, first, .starting due, [], [], []⟩])
    (hattached : m.attached = true) (hrunning : m.world.running = true)
    (hsent : m.world.sent = [])
    (hprivate : ∀ s ∈ scripts, ∀ b ∈ s.2.blocks, b.isPrivate = true) :
    Follows call scripts (m.beginRun call) (Chain.ofHats m.lastChain (first.hats scripts))
      ⟨m.world.withStarts (first.hats scripts), Chain.ofHats m.lastChain (first.hats scripts),
        []⟩ := by
  let going : Machine := { m with runs := [⟨call, scripts, first, .going, [], [], []⟩] }
  have hgoing : (m.mapRun call fun r => { r with phase := .going }) = going := by
    simp [mapRun, mapRuns, hruns, going]
  have hbegin : m.beginRun call = (first.hats scripts).foldl (startChain call) going := by
    have hrun : m.run? call = some ⟨call, scripts, first, .starting due, [], [], []⟩ := by
      simp [run?, hruns]
    have hrun' : going.run? call = some ⟨call, scripts, first, .going, [], [], []⟩ := by
      simp [run?, going]
    simp only [beginRun, hrun, hgoing, spawn, hrun']
  rw [hbegin, foldl_startChain_run (first.hats scripts) (m := going) rfl]
  have hids := Chain.nodup_ofHats m.lastChain (first.hats scripts)
  refine ⟨hattached, rfl, ⟨first, rfl⟩, ⟨hids, hids, fun c hc => hc, ?_⟩, hrunning, hsent, ?_, ?_,
    ?_⟩
  · refine List.filter_eq_nil_iff.mpr fun c hc => ?_
    have hmem : c.id ∈ (Chain.ofHats m.lastChain (first.hats scripts)).map (·.id) :=
      List.mem_map_of_mem hc
    simpa using hmem
  · intro c hc
    rw [List.append_nil] at hc
    obtain ⟨hat, hhat, -, hframes, htask⟩ := Chain.mem_ofHats hc
    refine ⟨by simp [hframes], ?_⟩
    rw [htask]
    exact hprivate _ (Trigger.mem_of_mem_hats hhat)
  · intro c hc
    obtain ⟨hat, -, -, -, htask⟩ := Chain.mem_ofHats hc
    rw [Chain.canResume, htask]
  · intro c hc
    cases hc

end Machine

end BlockScript

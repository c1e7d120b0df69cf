import BlockScript.Proofs.Run.Outcome

/-! The control of runs: the state, the run flag, the sender of triggers, and the asks, which the
machine and the stage keep apart. All of them agree in every machine that events lead to. -/

namespace BlockScript

namespace Chain

/-- The ask that the chain waits on, while it has no reply. -/
def ask? (c : Chain) : Option Nat :=
  match c.task with
  | .wait (.reply ask none) => some ask
  | _ => none

/-- The ask whose reply the chain has, but has not taken up yet. -/
def replied? (c : Chain) : Option Nat :=
  match c.task with
  | .wait (.reply ask (some _)) => some ask
  | _ => none

theorem ask?_of_isPlain {c : Chain} (h : c.task.isPlain = true) :
    c.ask? = none ∧ c.replied? = none := by
  unfold ask? replied?
  cases ht : c.task with
  | wait wait =>
    cases wait with
    | pause due purpose => exact ⟨rfl, rfl⟩
    | reply ask answer =>
      rw [ht] at h
      cases h
  | _ => exact ⟨rfl, rfl⟩

theorem awaits_iff {ask : Nat} {c : Chain} : c.awaits ask = true ↔ c.ask? = some ask := by
  unfold awaits ask?
  split <;> simp_all

theorem ask?_receive (ask : Nat) (text : String) (c : Chain) :
    (c.receive ask text).ask? = c.ask?.filter (· != ask) := by
  unfold receive
  by_cases hc : c.awaits ask = true
  · rw [if_pos hc, awaits_iff.mp hc]
    exact (Option.filter_some_neg (by simp)).symm
  · rw [if_neg hc]
    rw [awaits_iff] at hc
    cases ha : c.ask? with
    | none => rfl
    | some a =>
      rw [ha] at hc
      have hne : a ≠ ask := fun he => hc (congrArg some he)
      exact (Option.filter_some_pos (by simpa using hne)).symm

theorem replied?_receive {ask a : Nat} {text : String} {c : Chain}
    (h : (c.receive ask text).replied? = some a) :
    c.replied? = some a ∨ c.ask? = some a ∧ a = ask := by
  unfold receive at h
  by_cases hc : c.awaits ask = true
  · rw [if_pos hc] at h
    cases h
    exact .inr ⟨awaits_iff.mp hc, rfl⟩
  · rw [if_neg hc] at h
    exact .inl h

theorem ask?_silenced {asks : List Nat} {c : Chain} {a : Nat}
    (h : (c.silenced asks).ask? = some a) : c.ask? = some a ∧ a ∉ asks := by
  induction asks generalizing c with
  | nil => exact ⟨h, List.not_mem_nil⟩
  | cons ask asks ih =>
    obtain ⟨hr, hn⟩ := ih h
    rw [ask?_receive, Option.filter_eq_some_iff] at hr
    have hne : a ≠ ask := by simpa using hr.2
    exact ⟨hr.1, by simp [hne, hn]⟩

theorem replied?_silenced {asks : List Nat} {c : Chain} {a : Nat}
    (h : (c.silenced asks).replied? = some a) : c.replied? = some a ∨ c.ask? = some a := by
  induction asks generalizing c with
  | nil => exact .inl h
  | cons ask asks ih =>
    rcases ih h with hr | hr
    · exact (replied?_receive hr).imp_right And.left
    · rw [ask?_receive, Option.filter_eq_some_iff] at hr
      exact .inr hr.1

theorem ask?_of_mem_ofHats {last : Nat} {hats : List (String × Script × Block)} {c : Chain}
    (h : c ∈ ofHats last hats) : c.ask? = none ∧ c.replied? = none := by
  obtain ⟨-, blocks, hat, ht⟩ := start_of_mem_ofHats h
  exact ask?_of_isPlain (by rw [ht]; rfl)

end Chain

/-- The control agrees with itself and with the chains `cs` that have not ended. -/
structure World.Control (w : World) (cs : List Chain) : Prop where
  running_iff : w.state = .running ↔ w.running = true
  sender : w.state = .running → w.sender.isSome = true
  prompts : w.stage.prompts.map (·.id) = w.asks
  increasing : w.asks.Pairwise (· < ·)
  bounded : ∀ ask ∈ w.asks, ask ≤ w.lastAsk
  waiting : (cs.filterMap Chain.ask?).Perm w.asks
  idle : w.state ≠ .running → w.asks = [] ∧ w.stage.prompts = []

/-- Besides, replies on their way belong to asks that are settled. -/
structure World.Kept (w : World) (cs : List Chain) : Prop extends w.Control cs where
  settled : ∀ ask ∈ cs.filterMap Chain.replied?, ask ∉ w.asks ∧ ask ≤ w.lastAsk

namespace World

theorem Kept.perm {w : World} {cs cs' : List Chain} (h : w.Kept cs) (hp : cs.Perm cs') :
    w.Kept cs' :=
  { h with
    waiting := (hp.filterMap _).symm.trans h.waiting
    settled := fun ask ha => h.settled ask ((hp.filterMap _).mem_iff.mpr ha) }

theorem Kept.steady {w w' : World} {cs : List Chain} (h : w.Kept cs) (hw : w.Steady w') :
    w'.Kept cs := by
  constructor
  · constructor
    · rw [hw.state, hw.running]
      exact h.running_iff
    · rw [hw.state, hw.sender]
      exact h.sender
    · rw [hw.prompts, hw.asks]
      exact h.prompts
    · rw [hw.asks]
      exact h.increasing
    · rw [hw.asks, hw.lastAsk]
      exact h.bounded
    · rw [hw.asks]
      exact h.waiting
    · rw [hw.state, hw.asks, hw.prompts]
      exact h.idle
  · rw [hw.asks, hw.lastAsk]
    exact h.settled

theorem Kept.congr {w : World} {cs cs' : List Chain} (h : w.Kept cs)
    (ha : cs'.filterMap Chain.ask? = cs.filterMap Chain.ask?)
    (hr : cs'.filterMap Chain.replied? = cs.filterMap Chain.replied?) : w.Kept cs' :=
  { h with
    waiting := ha ▸ h.waiting
    settled := hr ▸ h.settled }

theorem Kept.ask {w : World} {c : Chain} {cs : List Chain} (h : w.Kept (c :: cs))
    (hr : w.running = true) (hc : c.ask? = none ∧ c.replied? = none) (sprite question : String)
    {d : Chain} (hd : d.task = (w.ask sprite question).2) :
    (w.ask sprite question).1.Kept (d :: cs) := by
  have hd' : d.ask? = some (w.lastAsk + 1) ∧ d.replied? = none := by
    unfold Chain.ask? Chain.replied?
    rw [hd]
    exact ⟨rfl, rfl⟩
  have hw := h.waiting
  have hset := h.settled
  rw [List.filterMap_cons_none hc.1] at hw
  rw [List.filterMap_cons_none hc.2] at hset
  have hnew : ∀ ask ∈ w.asks, ask < w.lastAsk + 1 := fun ask ha =>
    Nat.lt_succ_of_le (h.bounded ask ha)
  refine Kept.steady ?_ (update_steady _ sprite _)
  refine ⟨⟨h.running_iff, h.sender, ?_, ?_, ?_, ?_, ?_⟩, ?_⟩
  · change List.map _ (w.stage.prompts ++ [_]) = w.asks ++ [w.lastAsk + 1]
    rw [List.map_append, h.prompts]
    rfl
  · exact List.pairwise_append.mpr ⟨h.increasing, List.pairwise_singleton .., by simpa using hnew⟩
  · intro ask ha
    rcases List.mem_append.mp ha with ha | ha
    · exact Nat.le_of_lt (hnew ask ha)
    · exact Nat.le_of_eq (List.mem_singleton.mp ha)
  · rw [List.filterMap_cons_some hd'.1]
    exact (hw.cons _).trans (List.perm_append_singleton _ _).symm
  · exact fun hidle => absurd (h.running_iff.mpr hr) hidle
  · rw [List.filterMap_cons_none hd'.2]
    intro ask ha
    obtain ⟨hn, hl⟩ := hset ask ha
    refine ⟨fun hmem => ?_, Nat.le_succ_of_le hl⟩
    rcases List.mem_append.mp hmem with hmem | hmem
    · exact hn hmem
    · have := List.mem_singleton.mp hmem
      omega

theorem Kept.afterReply {w : World} {c : Chain} {cs : List Chain} {ask : Nat} {text : String}
    (h : w.Kept (c :: cs)) (hc : c.task = .wait (.reply ask (some text))) (d : Chain)
    (hd : d.ask? = none ∧ d.replied? = none) :
    (w.afterReply c.sprite ask text).Kept (d :: cs) := by
  have hrep : c.ask? = none ∧ c.replied? = some ask := by
    unfold Chain.ask? Chain.replied?
    rw [hc]
    exact ⟨rfl, rfl⟩
  have hset := h.settled
  rw [List.filterMap_cons_some hrep.2] at hset
  have hk : w.Kept (d :: cs) :=
    { h with
      waiting := by
        rw [List.filterMap_cons_none hd.1, ← List.filterMap_cons_none hrep.1]
        exact h.waiting
      settled := by
        rw [List.filterMap_cons_none hd.2]
        exact fun a ha => hset a (List.mem_cons_of_mem _ ha) }
  unfold World.afterReply
  split
  · refine Kept.steady ?_ (update_steady _ c.sprite _)
    refine hk.steady ⟨rfl, rfl, rfl, rfl, rfl, ?_⟩
    refine List.filter_eq_self.mpr fun p hp => ?_
    have hne : p.id ∈ w.asks := h.prompts ▸ List.mem_map_of_mem hp
    have := (hset ask List.mem_cons_self).1
    simp only [bne_iff_ne]
    exact fun he => this (he ▸ hne)
  · exact hk

theorem Kept.halted {w w' : World} {cs : List Chain} (h : w.Kept cs) (hs : w'.state ≠ .running)
    (hl : w'.lastAsk = w.lastAsk) : w'.halted.Kept (cs.map (Chain.silenced w.asks)) := by
  have hnone : (cs.map (Chain.silenced w.asks)).filterMap Chain.ask? = [] := by
    refine List.eq_nil_iff_forall_not_mem.mpr fun a ha => ?_
    rw [List.filterMap_map] at ha
    obtain ⟨c, hc, hca⟩ := List.mem_filterMap.mp ha
    obtain ⟨hask, hn⟩ := Chain.ask?_silenced hca
    exact hn (h.waiting.mem_iff.mp (List.mem_filterMap.mpr ⟨c, hc, hask⟩))
  refine ⟨⟨?_, ?_, ?_, ?_, ?_, ?_, ?_⟩, ?_⟩
  · simp [hs]
  · simp [hs]
  · simp
  · simp
  · simp
  · simp [hnone]
  · simp
  · intro a ha
    rw [List.filterMap_map] at ha
    obtain ⟨c, hc, hca⟩ := List.mem_filterMap.mp ha
    simp only [halted_asks, halted_lastAsk, hl]
    refine ⟨List.not_mem_nil, ?_⟩
    rcases Chain.replied?_silenced hca with hr | hr
    · exact (h.settled a (List.mem_filterMap.mpr ⟨c, hc, hr⟩)).2
    · exact h.bounded a (h.waiting.mem_iff.mp (List.mem_filterMap.mpr ⟨c, hc, hr⟩))

theorem Kept.answer {w : World} {cs : List Chain} {ask : Nat} {rest : List Nat} (h : w.Kept cs)
    (ha : w.asks = ask :: rest) (text : String) :
    ({ w with asks := rest }.mapStage fun s =>
      { s with prompts := s.prompts.filter (·.id != ask) }).Kept
        (cs.map (Chain.receive ask text)) := by
  have hinc := h.increasing
  have hbound := h.bounded
  rw [ha] at hinc hbound
  obtain ⟨hlt, hrest⟩ := List.pairwise_cons.mp hinc
  have hfresh : ask ∉ rest := fun hmem => Nat.lt_irrefl _ (hlt ask hmem)
  have hfilter : (ask :: rest).filter (· != ask) = rest := by
    rw [List.filter_cons_of_neg (by simp), List.filter_eq_self]
    intro a hmem
    simp only [bne_iff_ne]
    exact fun he => hfresh (he ▸ hmem)
  refine ⟨⟨h.running_iff, h.sender, ?_, hrest, ?_, ?_, ?_⟩, ?_⟩
  · change (w.stage.prompts.filter ((· != ask) ∘ Prompt.id)).map Prompt.id = rest
    rw [← List.filter_map, h.prompts, ha, hfilter]
  · exact fun a hmem => hbound a (List.mem_cons_of_mem _ hmem)
  · have hperm := h.waiting.filter (· != ask)
    rw [ha, hfilter, List.filter_filterMap] at hperm
    rw [List.filterMap_map]
    exact (funext (Chain.ask?_receive ask text) : Chain.ask? ∘ Chain.receive ask text = _) ▸ hperm
  · intro hidle
    have := (h.idle hidle).1
    rw [ha] at this
    cases this
  · intro a hmem
    rw [List.filterMap_map] at hmem
    obtain ⟨c, hc, hca⟩ := List.mem_filterMap.mp hmem
    rcases Chain.replied?_receive hca with hr | ⟨hr, rfl⟩
    · obtain ⟨hn, hle⟩ := h.settled a (List.mem_filterMap.mpr ⟨c, hc, hr⟩)
      rw [ha] at hn
      exact ⟨fun hm => hn (List.mem_cons_of_mem _ hm), hle⟩
    · exact ⟨hfresh, hbound a List.mem_cons_self⟩

theorem Kept.spawn {w : World} {R₁ R₂ : List Run} {r r' : Run} {last : Nat}
    {hats : List (String × Script × Block)} (h : w.Kept ((R₁ ++ r :: R₂).flatMap (·.chains)))
    (hc : r'.chains = r.chains) :
    w.Kept ((R₁ ++ r'.withHats last hats :: R₂).flatMap (·.chains)) := by
  have ha : (Chain.ofHats last hats).filterMap Chain.ask? = [] :=
    List.filterMap_eq_nil_iff.mpr fun c hc => (Chain.ask?_of_mem_ofHats hc).1
  have hr : (Chain.ofHats last hats).filterMap Chain.replied? = [] :=
    List.filterMap_eq_nil_iff.mpr fun c hc => (Chain.ask?_of_mem_ofHats hc).2
  refine Kept.perm ?_ (Machine.chains_withHats hc).symm
  refine h.congr ?_ ?_
  · rw [List.filterMap_append, ha, List.nil_append]
  · rw [List.filterMap_append, hr, List.nil_append]

end World

theorem Chain.Stepped.kept {w w' : World} {c : Chain} {c' : Option Chain} {cs : List Chain}
    (hs : c.Stepped w w' c') (h : w.Kept (c :: cs)) : w'.Kept (c'.toList ++ cs) := by
  have hsame {d : Chain} (hc : c.ask? = none ∧ c.replied? = none)
      (hd : d.ask? = none ∧ d.replied? = none) : w.Kept (d :: cs) :=
    h.congr (by rw [List.filterMap_cons_none hd.1, List.filterMap_cons_none hc.1])
      (by rw [List.filterMap_cons_none hd.2, List.filterMap_cons_none hc.2])
  have htexture {d : Chain} {due : Option Nat} {request : ObjectRequest}
      (hd : d.task = .pause due (.texture request) ∨
        d.task = .wait (.pause due (.texture request))) : d.ask? = none ∧ d.replied? = none := by
    unfold ask? replied?
    rcases hd with hd | hd
    · rw [hd]
      exact ⟨rfl, rfl⟩
    · rw [hd]
      exact ⟨rfl, rfl⟩
  cases hs with
  | plain hc hw h' =>
    have hc := ask?_of_isPlain hc
    cases c' with
    | none =>
      refine World.Kept.steady ?_ hw.steady
      exact h.congr (List.filterMap_cons_none hc.1).symm (List.filterMap_cons_none hc.2).symm
    | some d => exact (hsame hc (ask?_of_isPlain (h' d rfl).1)).steady hw.steady
  | ask hc hr hw question frames =>
    exact (h.steady hw.steady).ask (hw.steady.running.trans hr) (ask?_of_isPlain hc) _ _ rfl
  | @request w₁ hc hw prompt frames =>
    obtain ⟨log, he⟩ := w₁.requestTexture_eq prompt
    have hk := ((hsame (d := { c with frames := frames, task := (w₁.requestTexture prompt).2 })
      (ask?_of_isPlain hc) (htexture (.inl rfl))).steady hw.steady)
    rw [he]
    exact hk.steady ⟨rfl, rfl, rfl, rfl, rfl, rfl⟩
  | await hc => exact hsame (htexture (.inl hc)) (htexture (.inr rfl))
  | stay => exact h
  | @settle w' d due request hc hw h' =>
    have hw' := w.settled_steady request
    exact (hsame (htexture hc) (ask?_of_isPlain h'.1)).steady (hw'.trans hw.steady)
  | answered hc => exact h.afterReply hc _ ⟨rfl, rfl⟩

theorem Chain.run_kept {w : World} {c : Chain} {cs : List Chain} (h : w.Kept (c :: cs))
    (scripts : Table Script) (fuel : Nat) :
    (c.run scripts fuel w).1.Kept ((c.run scripts fuel w).2.toList ++ cs) := by
  refine run_induction (P := fun w c => w.Kept (c.toList ++ cs)) ?_ h fuel
  exact fun w c h => (step_cases scripts w c).kept h

namespace Machine

def Control (m : Machine) : Prop :=
  m.world.Control m.chains

theorem Outcome.kept {m m' : Machine} {e : Event} (h : Outcome m e m') (hm : m.Tidy)
    (hk : m.world.Kept m.chains) : m'.world.Kept m'.chains := by
  cases h with
  | host he hp hc => exact hk.steady ⟨rfl, rfl, rfl, rfl, rfl, hp.prompts⟩
  | tick h => exact hk.steady ⟨rfl, rfl, rfl, rfl, rfl, rfl⟩
  | wakes => exact hk
  | rests h => exact hk
  | join hs =>
    simp only [chains, mapRuns]
    rw [chains_taking]
    exact hk
  | @opens c t h =>
    obtain ⟨ha, hp⟩ := hk.idle (not_running_of_starts h)
    have hc : (m.opened t).chains = m.chains := by simp [chains, opened, newRun]
    rw [hc]
    exact ⟨⟨⟨fun _ => rfl, fun _ => rfl⟩, fun _ => rfl, hk.prompts, hk.increasing, hk.bounded,
      hk.waiting, fun hn => absurd rfl hn⟩, hk.settled⟩
  | stop =>
    simp only [chains, mapWorld, mapRuns]
    rw [chains_map fun r => rfl]
    exact hk.halted m.world.state.stop_ne_running rfl
  | answer h =>
    simp only [chains, mapWorld, mapRuns]
    rw [chains_map fun r => rfl]
    exact hk.answer h _
  | begins hr hp hw =>
    rw [chains, hr] at hk
    refine World.Kept.steady ?_ (w := m.world) ⟨rfl, rfl, rfl, rfl, rfl, rfl⟩
    exact hk.spawn rfl
  | handles hr hp hh =>
    rw [chains, hr] at hk
    refine World.Kept.steady ?_ (w := m.world) ⟨rfl, rfl, rfl, rfl, rfl, rfl⟩
    exact hk.spawn rfl
  | @resumes R₁ R₂ r l₁ l₂ c c' w' fuel hr hl hc hrun =>
    obtain ⟨rest, hbefore, hafter⟩ := chains_putBack R₁ R₂ hl
    have hrun' := Chain.run_kept (hk.perm (by rw [chains, hr]; exact hbefore)) r.scripts fuel
    rw [hrun] at hrun'
    simp only [chains]
    rw [chains_taking]
    exact (hrun'.perm (hafter c').symm).steady ⟨rfl, rfl, rfl, rfl, rfl, rfl⟩
  | @finishes R₁ R₂ r hr ho =>
    have hnil : r.chains = [] := (hm.runs r (by rw [hr]; simp)).chains_of_isOver ho
    have hc : m.chains = (R₁ ++ R₂).flatMap (·.chains) := by
      rw [chains, hr]
      simp [hnil]
    simp only [chains]
    rw [chains_map fun r => rfl, ← hc]
    let left : World := { m.world with state := m.world.state.finish, sender := none }
    have hh : left.halted.Kept _ := hk.halted m.world.state.finish_ne_running rfl
    exact hh.steady ⟨rfl, rfl, rfl, rfl, rfl, rfl⟩

theorem create_kept (options : Options) (services : Services) :
    (create .empty options services).world.Kept [] :=
  ⟨⟨by simp [create], by simp [create], rfl, .nil, by simp [create], .nil, fun _ => ⟨rfl, rfl⟩⟩,
    by simp⟩

theorem Reachable.kept {m : Machine} (h : m.Reachable) : m.world.Kept m.chains :=
  h.invariant create_kept Outcome.kept

theorem next?_call {m m' : Machine} (h : m.Reachable) {e : Event} (hc : e.isCall = true)
    (he : m.next? e = some m') : m'.world.running = true := by
  have ho := next?_outcome h.tidy he
  by_cases hs : m.world.state = .running
  · have hr : m.asleep.world.running = true := h.kept.running_iff.mp hs
    change m'.asleep.world.running = true
    generalize m'.asleep = m'' at ho
    cases ho with
    | host | join => exact hr
    | opens => rfl
    | _ => cases hc
  · cases e with
    | obey c =>
      have hstart : ∃ t, m.starts c = some t := by
        cases c with
        | flag => exact ⟨_, if_pos ⟨h.tidy.attached, hs⟩⟩
        | click sprite => exact ⟨_, if_pos ⟨h.tidy.attached, hs⟩⟩
        | _ => cases hc
      obtain ⟨t, ht⟩ := hstart
      cases he
      exact congrArg (fun m => m.world.running) (obey_opens ht)
    | _ => cases hc

/-- Only a halt stops a run that goes on. -/
theorem next?_running {m m' : Machine} (h : m.Reachable) (hr : m.world.running = true) {e : Event}
    (hhalt : e.isHalt = false) (he : m.next? e = some m') : m'.world.running = true := by
  cases hc : e.isCall with
  | true => exact next?_call h hc he
  | false =>
    have hrun : m'.world.running = (m.world.running && !e.isHalt) :=
      (next?_outcome h.tidy he).running hc
    rw [hrun, hr, hhalt]
    rfl

/-- However runs, stops, answers and resumptions follow each other, the control stays whole, also
while a second run has begun before a stopped one has returned. -/
theorem reachable_control {m : Machine} (h : m.Reachable) : m.Control :=
  h.kept.toControl

def twoQuestions : Script :=
  ⟨[.create "a" .whenFlagClicked ⟨0, 0⟩, .create "b" .ask ⟨0, 40⟩,
    .create "c" .whenFlagClicked ⟨300, 0⟩, .create "d" .ask ⟨300, 40⟩], 4⟩

theorem reachable_control_two_asks :
    ∃ m : Machine, m.Reachable ∧ m.world.state = .running ∧ m.world.asks = [1, 2] ∧ m.Control := by
  let es : List Event :=
    [.edit (.addSprite "🐱"), .edit (.editScript "sprite-1" fun _ => .ok (twoQuestions, ())),
      .obey .flag, .advance 50, .beginRun 0, .resumeChain 9 0 2, .resumeChain 9 0 1]
  have he : ((create .empty {} {}).after es).map (fun m => (m.world.state, m.world.asks)) =
      some (.running, [1, 2]) := rfl
  obtain ⟨m, hm, hw⟩ := Option.map_eq_some_iff.mp he
  have hr : m.Reachable := ⟨_, _, es, hm⟩
  exact ⟨m, hr, congrArg Prod.fst hw, congrArg Prod.snd hw, reachable_control hr⟩

end Machine

end BlockScript

import BlockScript.Proofs.Run.Account
import BlockScript.Proofs.Run.Control
import BlockScript.Proofs.Stage.Frozen

/-! A stop. As long as no new run is started, each chain ends at its next resumption and begins
no block, and the stage is frozen. -/

namespace BlockScript

def Record.isBegin : Record → Bool
  | began .. => true
  | _ => false

def Record.isDiscard : Record → Bool
  | textureDiscarded _ => true
  | _ => false

namespace World

def tally (which : Record → Bool) (w : World) : Nat :=
  w.log.countP (which ·.2)

def begun (w : World) : Nat :=
  w.tally Record.isBegin

def discarded (w : World) : Nat :=
  w.tally Record.isDiscard

theorem tally_note (which : Record → Bool) (w : World) (r : Record) :
    (w.note r).tally which = w.tally which + if which r then 1 else 0 := by
  simp only [tally, note, Array.countP_push]

/-- No block begins, the stage is frozen, and texture requests are at most abandoned. -/
structure Frozen (w w' : World) : Prop where
  stage : w.stage.Frozen w'.stage
  begun : w'.begun = w.begun
  textures : ∃ n, w'.discarded = w.discarded + n ∧ w.stage.generating = w'.stage.generating + n

theorem Frozen.of_eq {w w' : World} (hs : w'.stage = w.stage) (hl : w'.log = w.log) :
    w.Frozen w' := by
  refine ⟨?_, ?_, 0, ?_, ?_⟩
  · rw [hs]
    exact .refl w.stage
  · simp only [World.begun, tally, hl]
  · simp only [discarded, tally, hl, Nat.add_zero]
  · rw [hs]
    rfl

theorem Frozen.refl (w : World) : w.Frozen w :=
  .of_eq rfl rfl

theorem Frozen.trans {w w' w'' : World} (h : w.Frozen w') (h' : w'.Frozen w'') : w.Frozen w'' := by
  obtain ⟨n, hd, hg⟩ := h.textures
  obtain ⟨n', hd', hg'⟩ := h'.textures
  refine ⟨h.stage.trans h'.stage, h'.begun.trans h.begun, n + n', ?_, ?_⟩
  · omega
  · omega

theorem note_frozen (w : World) {r : Record} (hb : r.isBegin = false) (hd : r.isDiscard = false) :
    w.Frozen (w.note r) := by
  refine ⟨.refl w.stage, ?_, 0, ?_, rfl⟩
  · rw [begun, tally_note, hb]
    rfl
  · rw [discarded, tally_note, hd]
    rfl

theorem noteOverruns_frozen (w : World) (sprite : String) (b : Block) (names : List String) :
    w.Frozen (w.noteOverruns sprite b names) :=
  noteOverruns_induction (.refl w) (fun v _ h => h.trans (v.note_frozen rfl rfl)) sprite b names

theorem halted_frozen (w : World) : w.Frozen w.halted := by
  let quiet : World := { w with running := false, asks := [] }.mapStage fun s =>
    { s.clearSpeech with prompts := [] }
  have hq : w.Frozen quiet := ⟨w.stage.clearSpeech_frozen, rfl, 0, rfl, rfl⟩
  refine hq.trans ?_
  change quiet.Frozen quiet.stopSounds
  unfold stopSounds
  split
  · exact (quiet.note_frozen rfl rfl).trans (.of_eq rfl rfl)
  · exact .of_eq rfl rfl

theorem discard_frozen {w : World} (h : 0 < w.stage.generating) (prompt : String) :
    w.Frozen (w.settleTexture.note (.textureDiscarded prompt)) := by
  have hs : w.stage.Frozen w.settleTexture.stage := ⟨rfl, rfl, rfl, rfl, rfl,
    (Stage.Frozen.refl w.stage).sprites⟩
  refine ⟨hs, ?_, 1, ?_, ?_⟩
  · rw [begun, tally_note]
    rfl
  · rw [discarded, tally_note]
    rfl
  · have hg : w.settleTexture.stage.generating = w.stage.generating - 1 := rfl
    change w.stage.generating = w.settleTexture.stage.generating + 1
    omega

/-- After a stop, whatever a pause was for, the chain goes on to end. -/
theorem Sequel.frozen {w w' : World} {sprite : String} {frames frames' : List Frame}
    {purpose : Purpose} {task : Task} (h : w.Sequel sprite frames false purpose w' frames' task)
    (hi : w.stage.InRange) (hg : purpose.isTexture = true → 0 < w.stage.generating) :
    w.Frozen w' ∧ task = .resume := by
  cases h with
  | last | goesOn => exact ⟨.refl w, rfl⟩
  | discards _ request => exact ⟨discard_frozen (hg rfl) request.prompt, rfl⟩
  | cleans =>
    refine ⟨?_, rfl⟩
    have hf (s : Sprite) : (if s.speech.map (·.text) = some failureMessage then s.hush else s) = s ∨
        (if s.speech.map (·.text) = some failureMessage then s.hush else s) = s.hush := by
      split
      · exact .inr rfl
      · exact .inl rfl
    refine ⟨Stage.updateSprite_frozen hi sprite hf, rfl, 0, rfl, ?_⟩
    exact (w.stage.updateSprite_generating sprite _).symm
  | next hf hgoing | hushes hgoing | looks hgoing | creates hgoing | fails hgoing => cases hgoing

end World

namespace Chain

/-- How many steps the chain takes to its end after a stop, at most. -/
def toGo (c : Chain) : Nat :=
  match c.task, c.frames with
  | .resume, frames => 2 * frames.length + 1
  | .round, .loop .. :: outer => 2 * outer.length + 2
  | .pause _ .step, .step .. :: outer => 2 * outer.length + 2
  | .wait (.pause _ .step), .step .. :: outer => 2 * outer.length + 2
  | .start .., frames => 2 * frames.length + 3
  | .body .., frames => 2 * frames.length + 3
  | .look _, frames => 2 * frames.length + 3
  | _, frames => 2 * frames.length + 2

theorem toGo_pos (c : Chain) : 0 < c.toGo := by
  unfold toGo
  split <;> omega

theorem toGo_le (c : Chain) : c.toGo ≤ 2 * c.frames.length + 3 := by
  unfold toGo
  split <;> simp_all <;> omega

/-- The chain can only end: the run is stopped, and no question holds the chain up. -/
structure Stopped (w : World) (c : Chain) : Prop where
  running : w.running = false
  ask : c.ask? = none
  inRange : w.stage.InRange
  textures : c.holdsTexture = true → 0 < w.stage.generating

theorem Stopped.canResume {w : World} {c : Chain} (h : c.Stopped w) : c.canResume w = true := by
  have ha := h.ask
  unfold Chain.canResume
  split
  · rename_i wait ht
    cases wait with
    | pause due purpose => simp [World.isOver, h.running]
    | reply ask answer =>
      cases answer with
      | none => simp [ask?, ht] at ha
      | some text => rfl
  · rfl

theorem Stopped.sequel {w w' : World} {c : Chain} (h : c.Stopped w) {due : Option Nat}
    {purpose : Purpose} {frames : List Frame} {task : Task}
    (hc : c.task = .pause due purpose ∨ c.task = .wait (.pause due purpose))
    (hq : w.Sequel c.sprite c.frames w.running purpose w' frames task) :
    w.Frozen w' ∧ task = .resume ∧ 2 * frames.length + 1 < c.toGo := by
  rw [h.running] at hq
  have hg : purpose.isTexture = true → 0 < w.stage.generating := by
    intro hp
    obtain ⟨request, rfl⟩ := Purpose.eq_texture hp
    exact h.textures (holdsTexture_of_task hc)
  obtain ⟨hw, ht⟩ := hq.frozen h.inRange hg
  refine ⟨hw, ht, ?_⟩
  cases hq with
  | last hf => rcases hc with hc | hc <;> simp [toGo, hc, hf]
  | discards | cleans => rcases hc with hc | hc <;> simp [toGo, hc]
  | goesOn hp hf =>
    unfold toGo
    rcases hc with hc | hc
    · rw [hc]
      split <;> simp_all [Frame.onStep]
    · rw [hc]
      split <;> simp_all [Frame.onStep]
  | next hf hgoing | hushes hgoing | looks hgoing | creates hgoing | fails hgoing => cases hgoing

theorem Stopped.next {w w' : World} {c d : Chain} (h : c.Stopped w) (hw : w.Frozen w')
    (hr : w'.running = w.running) (hp : d.task.isPlain = true) : d.Stopped w' := by
  refine ⟨hr.trans h.running, (ask?_of_isPlain hp).1, hw.stage.inRange h.inRange, fun ht => ?_⟩
  rw [holdsTexture_of_isPlain hp] at ht
  cases ht

structure Nearer (c d : Chain) : Prop where
  plain : d.task.isPlain = true
  awake : d.isWaiting = false
  shorter : d.toGo < c.toGo

theorem nearer_resume {c : Chain} {frames : List Frame} (h : 2 * frames.length + 1 < c.toGo) :
    c.Nearer { c with frames := frames, task := .resume } :=
  ⟨rfl, rfl, h⟩

theorem Stopped.step {w : World} {c : Chain} (h : c.Stopped w) (scripts : Table Script) :
    w.Frozen (c.step scripts w).1 ∧ ∀ d ∈ (c.step scripts w).2, c.Nearer d := by
  have hs := c.step_transition scripts w
  generalize (c.step scripts w).1 = w', (c.step scripts w).2 = c' at hs ⊢
  have hsome {w' : World} {d : Chain} (hw : w.Frozen w') (hd : c.Nearer d) :
      w.Frozen w' ∧ ∀ d' ∈ some d, c.Nearer d' := by
    refine ⟨hw, ?_⟩
    rintro d' ⟨⟩
    exact hd
  cases hs with
  | first ht | enters ht | hollow ht => exact hsome (.refl w) ⟨rfl, rfl, by simp [toGo, ht]⟩
  | bare | ends => exact ⟨.refl w, by simp⟩
  | passes ht => exact hsome (.refl w) (nearer_resume (by simp [toGo, ht]))
  | capped ht => exact hsome (w.note_frozen rfl rfl) ⟨rfl, rfl, by simp [toGo, ht]⟩
  | leaves ht hf => exact hsome (.refl w) (nearer_resume (by simp [toGo, ht, hf]))
  | astray ht hf => exact hsome (.refl w) (nearer_resume (by simp [toGo, ht, hf]))
  | sees ht => exact hsome (w.noteOverruns_frozen ..) (nearer_resume (by simp [toGo, ht]))
  | misses ht => exact hsome (w.noteOverruns_frozen ..) ⟨rfl, rfl, by simp [toGo, ht]⟩
  | hurries ht hd hq =>
    obtain ⟨hw, rfl, hlt⟩ := h.sequel (.inl ht) hq
    exact hsome hw (nearer_resume hlt)
  | wakes ht ho hq =>
    obtain ⟨hw, rfl, hlt⟩ := h.sequel (.inr ht) hq
    exact hsome hw (nearer_resume hlt)
  | hears ht =>
    rw [World.afterReply, h.running, if_neg Bool.false_ne_true]
    exact hsome (.refl w) (nearer_resume (by simp [toGo, ht]))
  | stays ht ho =>
    have hover := h.canResume
    rw [Chain.canResume, ht] at hover
    cases ho.symm.trans hover
  -- Leaving a frame takes two steps: into the pause or the round that ends it, and out.
  | finishes ht hf =>
    refine hsome (.refl w) ⟨rfl, rfl, ?_⟩
    simp only [toGo, ht, hf, List.length_cons]
    omega
  | rounds ht hf =>
    refine hsome (.refl w) ⟨rfl, rfl, ?_⟩
    simp only [toGo, ht, hf, List.length_cons]
    omega
  | begins ht hr | again ht hf hr | waits ht hr =>
    rw [h.running] at hr
    cases hr

/-- After a stop, a resumption freezes the stage, and ends the chain if it takes enough steps. -/
theorem Stopped.run {w : World} {c : Chain} (h : c.Stopped w) (scripts : Table Script)
    (fuel : Nat) :
    w.Frozen (c.run scripts fuel w).1 ∧ (c.toGo ≤ fuel → (c.run scripts fuel w).2 = none) := by
  -- Each step leaves the chain awake and `toGo` smaller, so nothing but the end can stop it.
  induction fuel generalizing w c with
  | zero =>
    refine ⟨.refl w, fun hle => ?_⟩
    have := c.toGo_pos
    omega
  | succ fuel ih =>
    obtain ⟨hw, hnear⟩ := h.step scripts
    have hr := (c.step_same_run scripts w).2.1
    rw [Chain.run]
    generalize c.step scripts w = p at hw hnear hr
    obtain ⟨w', _ | d⟩ := p
    · exact ⟨hw, fun _ => rfl⟩
    · have hd := hnear d rfl
      obtain ⟨hw', hend⟩ := ih (h.next hw hr hd.plain)
      simp only [hd.awake, Bool.false_eq_true, if_false]
      refine ⟨hw.trans hw', fun hle => hend ?_⟩
      have := hd.shorter
      omega

end Chain

namespace Machine

theorem stopped_of_mem {m : Machine} (hr : m.world.running = false)
    (hk : m.world.Kept m.chains) (ha : m.world.Accounted m.chains) {c : Chain}
    (hc : c ∈ m.chains) : c.Stopped m.world := by
  have hs : m.world.state ≠ .running := by
    intro hs
    rw [hk.running_iff.mp hs] at hr
    cases hr
  refine ⟨hr, ?_, ha.inRange, fun ht => ?_⟩
  · have hw := hk.waiting
    rw [(hk.idle hs).1] at hw
    exact List.filterMap_eq_nil_iff.mp hw.eq_nil c hc
  · rw [ha.textures]
    exact List.countP_pos_iff.mpr ⟨c, hc, ht⟩

theorem Outcome.frozen {m m' : Machine} {e : Event} (h : Outcome m e m')
    (he : e.isInternal = true) (hr : m.world.running = false) (hk : m.world.Kept m.chains)
    (ha : m.world.Accounted m.chains) : m.world.Frozen m'.world := by
  cases h with
  | host hh hp hc =>
    rw [Event.isInternal_of_isHost hh] at he
    cases he
  | tick h => exact .of_eq rfl rfl
  | wakes => exact .refl _
  | rests h => exact .refl _
  | join hs => cases he
  | opens h => cases he
  | stop => cases he
  | answer h => cases he
  | begins hr' hp hw =>
    rw [hr] at hw
    cases hw
  | handles hr' hp hh =>
    rw [hr, if_neg Bool.false_ne_true] at hh
    rw [hh]
    exact .refl _
  | @resumes R₁ R₂ r l₁ l₂ c c' w' fuel hr' hl hc hrun =>
    have hc : c ∈ m.chains := by simp [chains, hr', hl]
    have hw := ((stopped_of_mem hr hk ha hc).run r.scripts fuel).1
    rw [hrun] at hw
    exact hw.trans (.of_eq rfl rfl)
  | finishes hr' ho =>
    let left : World := { m.world with state := m.world.state.finish, sender := none }
    have hl : m.world.Frozen left := .of_eq rfl rfl
    exact (hl.trans left.halted_frozen).trans (World.note_frozen _ rfl rfl)

theorem stop_running {m : Machine} (hm : m.Tidy) : m.stop.world.running = false := by
  have hs : m.next? (.obey .stop) = some m.stop := rfl
  have hr : m.stop.world.running = (m.world.running && !(Event.obey .stop).isHalt) :=
    (next?_outcome hm hs).running rfl
  simpa [Event.isHalt] using hr

theorem after_stop {m m' : Machine} {later : List Event} (h : m.Reachable)
    (hl : m.stop.after later = some m') (hn : ∀ e ∈ later, e.isCall = false) :
    m'.Reachable ∧ m'.world.running = false := by
  have hs : m.next? (.obey .stop) = some m.stop := rfl
  have hm := (h.next hs).tidy
  refine ⟨(h.next hs).after hl, ?_⟩
  refine after_induction (P := fun es m => (∀ e ∈ es, e.isCall = false) → m.world.running = false)
    (fun _ => stop_running h.tidy) ?_ hl hn
  intro es m₁ e m₂ hb ih he hn
  simp only [List.forall_mem_append, List.forall_mem_singleton] at hn
  have hr : m₁.world.running = false := ih hn.1
  rw [show m₂.world.running = _ from (next?_outcome (hm.after hb) he).running hn.2]
  simp [asleep, hr]

/-- Whether a resumption of the chain begins no block and, unless it is cut short, ends it. -/
def EndsAtOnce (m : Machine) (call : Nat) (c : Chain) : Prop :=
  ∀ fuel, (m.resumeChain fuel call c.id).1.world.begun = m.world.begun ∧
    (2 * c.frames.length + 3 ≤ fuel → (m.resumeChain fuel call c.id).2 = true ∧
      ∀ r ∈ (m.resumeChain fuel call c.id).1.runs, r.call = call → ∀ d ∈ r.chains, d.id ≠ c.id)

theorem id_ne_of_putBack {R₁ R₂ : List Run} {r s : Run} {l₁ l₂ : List Chain} {c : Chain}
    (hn : ((R₁ ++ r :: R₂).map (·.call)).Nodup) (hi : ((l₁ ++ c :: l₂).map (·.id)).Nodup)
    (hs : s ∈ R₁ ++ { r with chains := l₁ ++ l₂ } :: R₂) (hc : s.call = r.call) :
    ∀ d ∈ s.chains, d.id ≠ c.id := by
  have hne := key_ne_of_nodup Run.call hn
  rcases List.mem_append.mp hs with hs | hs
  · exact absurd hc (hne s (List.mem_append_left _ hs))
  · rcases List.mem_cons.mp hs with rfl | hs
    · exact key_ne_of_nodup Chain.id hi
    · exact absurd hc (hne s (List.mem_append_right _ hs))

theorem endsAtOnce {m : Machine} (h : m.Reachable) (hr : m.world.running = false) {r : Run}
    (hmem : r ∈ m.lanes) {c : Chain} (hc : c ∈ r.chains) : m.EndsAtOnce r.call c := by
  intro fuel
  have hm := tidy_asleep.mpr h.tidy
  have hcs : c ∈ m.chains := by
    rw [← chains_asleep]
    exact List.mem_flatMap.mpr ⟨r, hmem, hc⟩
  have hs : c.Stopped m.world := stopped_of_mem hr h.kept h.accounted hcs
  have hi := (hm.runs r hmem).ids
  obtain ⟨R₁, R₂, hR⟩ := List.append_of_mem hmem
  obtain ⟨l₁, l₂, hl⟩ := List.append_of_mem hc
  obtain ⟨hend, hafter⟩ := resumeChain_split hm.calls hR hi hl fuel hs.canResume
  obtain ⟨hw, hnone⟩ := hs.run r.scripts fuel
  refine ⟨?_, fun hle => ?_⟩
  · have hworld : (m.resumeChain fuel r.call c.id).1.world =
        { (c.run r.scripts fuel m.world).1 with sent := [] } := congrArg world hafter
    rw [hworld]
    exact hw.begun
  · have hnone := hnone (Nat.le_trans c.toGo_le hle)
    refine ⟨by rw [hend, hnone, Option.isNone_none], fun s hmem' hcall => ?_⟩
    have hlane : s.asleep ∈ (m.resumeChain fuel r.call c.id).1.asleep.runs :=
      List.mem_map_of_mem hmem'
    simp only [hafter, hnone, Option.toList_none, List.append_nil] at hlane
    obtain ⟨t, ht, he⟩ := List.mem_map.mp hlane
    have hsc : s.chains = t.chains := (congrArg Run.chains he).symm
    have htc : t.call = r.call := (congrArg Run.call he).trans hcall
    rw [hsc]
    exact id_ne_of_putBack (hR ▸ hm.calls) (hl ▸ hi) ht htc

/-- After a stop and until the next call, every chain ends at its next resumption without
beginning a block; and whatever runs do on their way to their end, the stage is frozen and no
question is put. -/
theorem stop_ends_and_freezes {m m' : Machine} {later : List Event} (h : m.Reachable)
    (hl : m.stop.after later = some m') (hn : ∀ e ∈ later, e.isCall = false) :
    (∀ r ∈ m'.runs, ∀ c ∈ r.chains, m'.EndsAtOnce r.call c) ∧
      ∀ rest m'', m'.after rest = some m'' → (∀ e ∈ rest, e.isInternal = true) →
        m'.world.Frozen m''.world ∧ m''.world.asks = [] ∧ m''.world.stage.prompts = [] := by
  -- From here on only `m'` matters, which events have led to and which does not run.
  obtain ⟨hm', hr⟩ := after_stop h hl hn
  refine ⟨fun r hmem c hc => endsAtOnce hm' hr (List.mem_map_of_mem hmem) hc, ?_⟩
  intro rest m'' hrest hi
  have hfrozen : m'.world.Frozen m''.world ∧ m''.world.running = false := by
    refine after_induction (P := fun es m => (∀ e ∈ es, e.isInternal = true) →
      m'.world.Frozen m.world ∧ m.world.running = false) (fun _ => ⟨.refl _, hr⟩) ?_ hrest hi
    intro es m₁ e m₂ hb ih he hi
    simp only [List.forall_mem_append, List.forall_mem_singleton] at hi
    obtain ⟨hw, hr₁⟩ := ih hi.1
    have hm₁ := hm'.after hb
    have ho := next?_outcome hm₁.tidy he
    have hk := hm₁.kept
    have ha := hm₁.accounted
    rw [← chains_asleep] at hk ha
    refine ⟨hw.trans (ho.frozen hi.2 hr₁ hk ha), ?_⟩
    rw [show m₂.world.running = _ from ho.running (Event.isCall_of_isInternal hi.2)]
    simp [asleep, hr₁]
  have hk := (hm'.after hrest).kept
  have hidle : m''.world.state ≠ .running := by
    intro hs
    rw [hk.running_iff.mp hs] at hfrozen
    cases hfrozen.2
  exact ⟨hfrozen.1, hk.idle hidle⟩

/-- Three stacks: one waits inside a loop, one asks something, and one waits for a texture. -/
def threeWaits : Script :=
  ⟨[.create "a" .whenFlagClicked ⟨0, 0⟩, .create "b" .forever ⟨0, 40⟩, .create "c" .wait ⟨20, 76⟩,
    .create "d" .whenFlagClicked ⟨300, 0⟩, .create "e" .ask ⟨300, 40⟩,
    .create "f" .whenFlagClicked ⟨600, 0⟩, .create "g" .createObject ⟨600, 40⟩], 7⟩

theorem stop_ends_and_freezes_three_waits :
    ∃ m m' : Machine, m.Reachable ∧ m.world.begun = 4 ∧ m.world.stage.generating = 1 ∧
      m.stop.after [.resumeChain 9 0 1, .resumeChain 9 0 2, .resumeChain 9 0 3, .finish 0] =
        some m' ∧ m'.world.stage.generating = 0 ∧
      (∀ r ∈ m.stop.runs, ∀ c ∈ r.chains, m.stop.EndsAtOnce r.call c) ∧
      m.stop.world.Frozen m'.world := by
  let before : List Event :=
    [.edit (.addSprite "🐱"), .edit (.editScript "sprite-1" fun _ => .ok (threeWaits, ())),
      .obey .flag, .advance 50, .beginRun 0, .resumeChain 9 0 1, .resumeChain 9 0 2,
      .resumeChain 9 0 3]
  let rest : List Event :=
    [.resumeChain 9 0 1, .resumeChain 9 0 2, .resumeChain 9 0 3, .finish 0]
  have he : ((create .empty {} { generator := fun _ => ⟨100, .ok "🧱"⟩ }).after before).bind (fun m =>
      (m.stop.after rest).map fun m' =>
        (m.world.begun, m.world.stage.generating, m'.world.stage.generating)) =
      some (4, 1, 0) := by
    decide +kernel
  obtain ⟨m, hbefore, he⟩ := Option.bind_eq_some_iff.mp he
  obtain ⟨m', hrest, he⟩ := Option.map_eq_some_iff.mp he
  simp only [Prod.mk.injEq] at he
  have hr : m.Reachable := ⟨_, _, before, hbefore⟩
  have hnow : m.stop.after [] = some m.stop := rfl
  obtain ⟨hends, hfrozen⟩ := stop_ends_and_freezes hr hnow (by simp)
  obtain ⟨hstage, -⟩ := hfrozen rest m' hrest (by simp [rest, Event.isInternal])
  exact ⟨m, m', hr, he.1, he.2.1, hrest, he.2.2, hends, hstage⟩

end Machine

end BlockScript

import BlockScript.Proofs.Run.Outcome

/-! A chain writes only its own sprite. Of the rest of the stage it can bind variables, put
questions, add objects and add to the trail, which only an erase-all block clears. -/

namespace BlockScript

namespace Stage

/-- Nothing is taken away, and no sprite but `id` is changed. -/
structure Spared (id : String) (s s' : Stage) : Prop where
  keys : s'.sprites.keys = s.sprites.keys
  others : ∀ other ≠ id, s'.sprite? other = s.sprite? other
  monitors : s'.monitors = s.monitors
  input : s'.input = s.input
  objects : s.objects <+: s'.objects

theorem Spared.refl (id : String) (s : Stage) : s.Spared id s :=
  ⟨rfl, fun _ _ => rfl, rfl, rfl, List.prefix_rfl⟩

theorem Spared.trans {id : String} {s s' s'' : Stage} (h : s.Spared id s') (h' : s'.Spared id s'') :
    s.Spared id s'' :=
  ⟨h'.keys.trans h.keys, fun other ho => (h'.others other ho).trans (h.others other ho),
    h'.monitors.trans h.monitors, h'.input.trans h.input, h.objects.trans h'.objects⟩

theorem updateSprite_spared (s : Stage) (id : String) (f : Sprite → Sprite) :
    s.Spared id (s.updateSprite id f) := by
  unfold updateSprite
  split
  · exact .refl id s
  · rename_i before hb
    refine ⟨Table.keys_insert hb _, fun other ho => ?_, rfl, rfl, List.prefix_rfl⟩
    exact (Table.get?_insert ..).trans (if_neg ho)

theorem updateSprite_trail (s : Stage) (id : String) (f : Sprite → Sprite) :
    s.trail <+: (s.updateSprite id f).trail := by
  unfold updateSprite
  split
  · exact List.prefix_rfl
  · exact List.prefix_append ..

end Stage

namespace World

theorem Deed.spared {sprite : String} {w w' : World} (h : Deed sprite w w') :
    w.stage.Spared sprite w'.stage := by
  cases h with
  | change f => exact w.stage.updateSprite_spared sprite f
  | mute =>
    obtain ⟨log, he⟩ := w.stopSounds_eq
    rw [he]
    exact .refl ..
  | _ => exact ⟨rfl, fun _ _ => rfl, rfl, rfl, List.prefix_rfl⟩

theorem Deeds.spared {sprite : String} {w w' : World} (h : Deeds sprite w w') :
    w.stage.Spared sprite w'.stage := by
  induction h with
  | refl => exact .refl ..
  | tail _ hd ih => exact ih.trans hd.spared

theorem note_log (w : World) (r : Record) : w.log.toList <+: (w.note r).log.toList := by
  simp [note]

theorem Deed.log {sprite : String} {w w' : World} (h : Deed sprite w w') :
    w.log.toList <+: w'.log.toList := by
  cases h with
  | remark r hr => exact w.note_log r
  | start dice kind depth hw => exact note_log { w with dice := dice } _
  | mute =>
    unfold stopSounds
    split
    · exact w.note_log _
    · exact List.prefix_rfl
  | send message => exact w.note_log _
  | _ => exact List.prefix_rfl

theorem Deeds.log {sprite : String} {w w' : World} (h : Deeds sprite w w') :
    w.log.toList <+: w'.log.toList := by
  induction h with
  | refl => exact List.prefix_rfl
  | tail _ hd ih => exact ih.trans hd.log

theorem ask_spared (w : World) (sprite question : String) :
    w.stage.Spared sprite (w.ask sprite question).1.stage := by
  let asked : Stage :=
    { w.stage with prompts := w.stage.prompts ++ [⟨w.lastAsk + 1, question, sprite⟩] }
  have hasked : w.stage.Spared sprite asked := ⟨rfl, fun _ _ => rfl, rfl, rfl, List.prefix_rfl⟩
  exact hasked.trans (asked.updateSprite_spared sprite _)

theorem requestTexture_spared (w : World) (sprite prompt : String) :
    w.stage.Spared sprite (w.requestTexture prompt).1.stage ∧
      w.log.toList <+: (w.requestTexture prompt).1.log.toList := by
  have hstage : w.stage.Spared sprite
      (w.mapStage fun s => { s with generating := s.generating + 1 }).stage :=
    ⟨rfl, fun _ _ => rfl, rfl, rfl, List.prefix_rfl⟩
  simp only [requestTexture]
  split
  · exact ⟨hstage, note_log ..⟩
  · exact ⟨hstage, List.prefix_rfl⟩

theorem settled_spared (w : World) (sprite : String) (request : ObjectRequest) :
    w.stage.Spared sprite (w.settled request).stage ∧ (w.settled request).log = w.log := by
  unfold settled
  split
  · exact ⟨⟨rfl, fun _ _ => rfl, rfl, rfl, List.prefix_append ..⟩, rfl⟩
  · exact ⟨⟨rfl, fun _ _ => rfl, rfl, rfl, List.prefix_rfl⟩, rfl⟩

theorem afterReply_spared (w : World) (sprite : String) (ask : Nat) (answer : String) :
    w.stage.Spared sprite (w.afterReply sprite ask answer).stage ∧
      w.log.toList <+: (w.afterReply sprite ask answer).log.toList := by
  unfold afterReply
  split
  · let bound : Stage :=
      { w.stage with prompts := w.stage.prompts.filter (·.id != ask) }.setVariable answerName
        (.text answer)
    have hbound : w.stage.Spared sprite bound := ⟨rfl, fun _ _ => rfl, rfl, rfl, List.prefix_rfl⟩
    exact ⟨hbound.trans (bound.updateSprite_spared sprite _), List.prefix_rfl⟩
  · exact ⟨.refl .., List.prefix_rfl⟩

theorem noteOverruns_stage (w : World) (sprite : String) (b : Block) (names : List String) :
    (w.noteOverruns sprite b names).stage = w.stage :=
  noteOverruns_induction (P := fun v => v.stage = w.stage) rfl (fun _ _ h => h) sprite b names

theorem entered_stage (w : World) (sprite : String) (b : Block) (depth : Nat) :
    (w.entered sprite b depth).stage = w.stage := by
  obtain ⟨dice, log, he⟩ := w.entered_eq sprite b depth
  rw [he]
  rfl

theorem update_trail {w : World} {trail : List Segment} (h : w.stage.trail = trail)
    (sprite : String) (f : Sprite → Sprite) : trail <+: (w.update sprite f).stage.trail := by
  rw [← h]
  exact w.stage.updateSprite_trail sprite f

/-- Every kind of block but one leaves the trail or adds to it. -/
theorem Effect.trail {w w' : World} {sprite : String} {blocks : List Block} {b : Block}
    {depth : Nat} {arg : String → Value} {frame : Option Frame} {task : Task}
    (h : w.Effect sprite blocks b depth arg w' frame task) (hb : b.kind ≠ .eraseAll) :
    w.stage.trail <+: w'.stage.trail := by
  cases h with
  | speaks | changes => exact update_trail rfl ..
  | asks =>
    apply update_trail
    rfl
  | plays sound waits =>
    obtain ⟨log, he⟩ := w.played_eq sound waits
    rw [he]
    exact List.prefix_rfl
  | listens =>
    obtain ⟨log, he⟩ := w.played_eq (arg "sound").toText true
    rw [he]
    exact List.prefix_rfl
  | mutes =>
    obtain ⟨log, he⟩ := w.stopSounds_eq
    rw [he]
    exact List.prefix_rfl
  | calls h =>
    obtain ⟨log, rfl⟩ := h.eq
    exact List.prefix_rfl
  | erases hk => exact absurd hk hb
  | requests prompt =>
    obtain ⟨log, he⟩ := w.requestTexture_eq prompt
    rw [he]
    exact List.prefix_rfl
  | _ => exact List.prefix_rfl

theorem Sequel.trail {w w' : World} {sprite : String} {frames frames' : List Frame} {going : Bool}
    {purpose : Purpose} {task : Task} (h : w.Sequel sprite frames going purpose w' frames' task) :
    w.stage.trail <+: w'.stage.trail := by
  cases h with
  | hushes | cleans => exact update_trail rfl ..
  | fails =>
    apply update_trail
    rfl
  | _ => exact List.prefix_rfl

theorem afterReply_trail (w : World) (sprite : String) (ask : Nat) (answer : String) :
    w.stage.trail <+: (w.afterReply sprite ask answer).stage.trail := by
  unfold afterReply
  split
  · apply update_trail
    rfl
  · exact List.prefix_rfl

/-- No sprite but `sprite` is changed, and nothing is taken away, except that the trail may have
been cleared by an erase-all block, which is on record then. -/
structure Confined (sprite : String) (w w' : World) : Prop where
  spared : w.stage.Spared sprite w'.stage
  recorded : ∃ new, w'.log.toList = w.log.toList ++ new ∧
    (w.stage.trail <+: w'.stage.trail ∨ ∃ time depth, (time, .began sprite .eraseAll depth) ∈ new)

theorem Confined.refl (sprite : String) (w : World) : w.Confined sprite w :=
  ⟨.refl .., [], by simp, .inl List.prefix_rfl⟩

theorem Confined.trans {sprite : String} {w w' w'' : World} (h : w.Confined sprite w')
    (h' : w'.Confined sprite w'') : w.Confined sprite w'' := by
  obtain ⟨hs, new, hl, ht⟩ := h
  obtain ⟨hs', new', hl', ht'⟩ := h'
  refine ⟨hs.trans hs', new ++ new', by rw [hl', hl, List.append_assoc], ?_⟩
  rcases ht with ht | ⟨time, depth, hmem⟩
  · rcases ht' with ht' | ⟨time, depth, hmem⟩
    · exact .inl (ht.trans ht')
    · exact .inr ⟨time, depth, List.mem_append_right _ hmem⟩
  · exact .inr ⟨time, depth, List.mem_append_left _ hmem⟩

end World

namespace Chain

theorem step_spared (scripts : Table Script) (w : World) (c : Chain) :
    w.stage.Spared c.sprite (c.step scripts w).1.stage ∧
      w.log.toList <+: (c.step scripts w).1.log.toList := by
  have hs := step_cases scripts w c
  generalize (c.step scripts w).1 = w', (c.step scripts w).2 = c' at hs
  cases hs with
  | plain hc hw h' => exact ⟨hw.spared, hw.log⟩
  | @ask w₁ hc hr hw question frames =>
    exact ⟨hw.spared.trans (w₁.ask_spared c.sprite question), hw.log⟩
  | @request w₁ hc hw prompt frames =>
    obtain ⟨hspared, hlog⟩ := w₁.requestTexture_spared c.sprite prompt
    exact ⟨hw.spared.trans hspared, hw.log.trans hlog⟩
  | await hc => exact ⟨.refl .., List.prefix_rfl⟩
  | stay => exact ⟨.refl .., List.prefix_rfl⟩
  | @settle w' d due request hc hw h' =>
    obtain ⟨hspared, hlog⟩ := w.settled_spared c.sprite request
    exact ⟨hspared.trans hw.spared, hlog ▸ hw.log⟩
  | @answered ask text hc => exact w.afterReply_spared c.sprite ask text

/-- A step clears the trail only if it begins an erase-all block. -/
theorem step_trail (scripts : Table Script) (w : World) (c : Chain) :
    w.stage.trail <+: (c.step scripts w).1.stage.trail ∨
      ∃ blocks b depth, c.task = .block blocks b depth ∧ b.kind = .eraseAll ∧
        w.running = true := by
  have hs := c.step_transition scripts w
  generalize (c.step scripts w).1 = w', (c.step scripts w).2 = c' at hs ⊢
  cases hs with
  | @begins blocks b depth w' frame task ht hr hp =>
    by_cases hb : b.kind = .eraseAll
    · exact .inr ⟨blocks, b, depth, ht, hb, hr⟩
    · have htrail := (World.Effect.of_perform hp).trail hb
      rw [w.entered_stage] at htrail
      exact .inl htrail
  | sees | misses => exact .inl (by rw [w.noteOverruns_stage])
  | hurries ht hd hq => exact .inl hq.trail
  | wakes ht ho hq => exact .inl hq.trail
  | hears => exact .inl (w.afterReply_trail ..)
  | _ => exact .inl List.prefix_rfl

theorem step_began (scripts : Table Script) {w : World} {c : Chain} {blocks : List Block}
    {b : Block} {depth : Nat} (ht : c.task = .block blocks b depth) (hb : b.kind = .eraseAll)
    (hr : w.running = true) :
    w.log.toList ++ [(w.now, .began c.sprite .eraseAll depth)] <+:
      (c.step scripts w).1.log.toList := by
  let noted := { w with dice := w.dice.next }.note (.began c.sprite b.kind depth)
  have hnoted : noted.log.toList = w.log.toList ++ [(w.now, .began c.sprite .eraseAll depth)] := by
    simp [noted, World.note, hb]
  have hoverruns := (noted.noteOverruns_deeds c.sprite b b.kind.readAtStart).log
  have hstep : (c.step scripts w).1 =
      (noted.noteOverruns c.sprite b b.kind.readAtStart).mapStage (·.erasePen) := by
    simp only [step, ht, if_pos hr, World.perform, noted, hb]
  rw [hstep, ← hnoted]
  exact hoverruns

theorem step_confined (scripts : Table Script) (w : World) (c : Chain) :
    w.Confined c.sprite (c.step scripts w).1 := by
  obtain ⟨hspared, new, hnew⟩ := step_spared scripts w c
  refine ⟨hspared, new, hnew.symm, ?_⟩
  refine (step_trail scripts w c).imp_right ?_
  rintro ⟨blocks, b, depth, ht, hb, hr⟩
  have hbegan := step_began scripts ht hb hr
  rw [← hnew, List.prefix_append_right_inj] at hbegan
  exact ⟨w.now, depth, hbegan.subset List.mem_cons_self⟩

theorem run_confined (scripts : Table Script) (fuel : Nat) (w : World) (c : Chain) :
    w.Confined c.sprite (c.run scripts fuel w).1 := by
  have hrun : w.Confined c.sprite (c.run scripts fuel w).1 ∧
      ∀ d ∈ (c.run scripts fuel w).2, d.sprite = c.sprite := by
    apply run_induction (P := fun v d => w.Confined c.sprite v ∧ ∀ e ∈ d, e.sprite = c.sprite)
    · rintro v d ⟨hv, hd⟩
      have hsprite := hd d rfl
      refine ⟨hv.trans (hsprite ▸ step_confined scripts v d), fun e he => ?_⟩
      exact (step_id he).2.trans hsprite
    · exact ⟨.refl .., by simp⟩
  exact hrun.1

end Chain

namespace Machine

/-- Whatever a chain does when it is resumed, in whichever sprite's script it is by then, it goes
on driving its own sprite and leaves the other sprites, the monitors and the input alone. Objects
are only added, and so are lines of the trail unless an erase-all block has begun. -/
theorem resumption_writes_own_sprite {m : Machine} (h : m.Reachable) {call id : Nat} {c : Chain}
    (hc : m.chain? call id = some c) (fuel : Nat) :
    let m' := (m.resumeChain fuel call id).1
    (∀ c' ∈ m'.chain? call id, c'.sprite = c.sprite) ∧
      (∀ other ≠ c.sprite, m'.stage.sprite? other = m.stage.sprite? other) ∧
      m'.stage.sprites.keys = m.stage.sprites.keys ∧
      m'.stage.monitors = m.stage.monitors ∧
      m'.stage.input = m.stage.input ∧
      m.stage.objects <+: m'.stage.objects ∧
      ∃ new, m'.world.log.toList = m.world.log.toList ++ new ∧
        (m.stage.trail <+: m'.stage.trail ∨
          ∃ time depth, (time, .began c.sprite .eraseAll depth) ∈ new) := by
  have hafter : (∀ c' ∈ (m.resumeChain fuel call id).1.chain? call id, c'.sprite = c.sprite) ∧
      m.world.Confined c.sprite (m.resumeChain fuel call id).1.world := by
    by_cases hres : c.canResume m.world = true
    · obtain ⟨scripts, hrun⟩ := resumeChain_chain? h.tidy hc hres
      obtain ⟨hworld, hchain⟩ := hrun fuel
      have hconfined := Chain.run_confined scripts fuel m.world c
      rw [hworld, hchain]
      exact ⟨fun c' hc' => (Chain.run_id hc').2, hconfined.spared, hconfined.recorded⟩
    · have hidle : (m.resumeChain fuel call id).1.asleep = m.asleep := by
        refine resumeChain_idle h.tidy (fun d hd => ?_) fuel
        cases hc.symm.trans hd
        simpa using hres
      have hworld : (m.resumeChain fuel call id).1.world = m.world := by
        change (m.resumeChain fuel call id).1.asleep.world = m.world
        rw [hidle]
        rfl
      rw [hworld, ← chain?_asleep, hidle, chain?_asleep]
      refine ⟨fun c' hc' => ?_, .refl ..⟩
      cases hc.symm.trans hc'
      rfl
  obtain ⟨hsprite, hspared, hrecorded⟩ := hafter
  exact ⟨hsprite, hspared.others, hspared.keys, hspared.monitors, hspared.input, hspared.objects,
    hrecorded⟩

/-- A script that another sprite may borrow, and a chain that runs it. -/
def lends : Script :=
  ⟨[.create "c" .defineScript ⟨0, 0⟩, .create "d" .changeX ⟨20, 36⟩], 2⟩

def borrows : Script :=
  ⟨[.create "a" .whenFlagClicked ⟨0, 0⟩,
    ⟨"b", .runScript, ⟨0, 40⟩, [("name", .literal (.text "script1"))]⟩], 2⟩

theorem resumption_writes_own_sprite_borrowed :
    ∃ (m : Machine) (c : Chain), m.Reachable ∧ m.chain? 0 1 = some c ∧ c.sprite = "sprite-1" ∧
      ((m.resumeChain 20 0 1).1.stage.sprite? "sprite-1").map (·.position.x) = some 10 ∧
      ∀ other ≠ "sprite-1",
        (m.resumeChain 20 0 1).1.stage.sprite? other = m.stage.sprite? other := by
  let es : List Event :=
    [.edit (.addSprite "🐱"), .edit (.addSprite "🐶"),
      .edit (.editScript "sprite-1" fun _ => .ok (borrows, ())),
      .edit (.editScript "sprite-2" fun _ => .ok (lends, ())),
      .obey .flag, .advance 50, .beginRun 0]
  have he : ((create .empty {} {}).after es).bind (fun m => (m.chain? 0 1).map fun c =>
      (c.sprite, ((m.resumeChain 20 0 1).1.stage.sprite? "sprite-1").map (·.position.x))) =
      some ("sprite-1", some 10) := by
    decide +kernel
  obtain ⟨m, hm, hw⟩ := Option.bind_eq_some_iff.mp he
  obtain ⟨c, hc, hw⟩ := Option.map_eq_some_iff.mp hw
  simp only [Prod.mk.injEq] at hw
  have hr : m.Reachable := ⟨_, _, es, hm⟩
  obtain ⟨-, hothers, -⟩ := resumption_writes_own_sprite hr hc 20
  exact ⟨m, c, hr, hc, hw.1, hw.2, hw.1 ▸ hothers⟩

end Machine

end BlockScript

import BlockScript.Proofs.Run.Transition
import BlockScript.Proofs.Stage.Bounds

/-! What one step of a chain does to the world: a few deeds in a row, and besides them only asks,
answers and texture requests. -/

namespace BlockScript

/-- Whether a record says nothing of a block begun or a trigger sent. -/
def Record.isRemark : Record → Bool
  | began .. | broadcast _ => false
  | _ => true

/-- Whether a task waits for no answer and for no texture. -/
def Task.isPlain : Task → Bool
  | .wait (.reply ..) | .wait (.pause _ (.texture _)) | .pause _ (.texture _) => false
  | _ => true

namespace World

inductive Deed (sprite : String) : World → World → Prop
  | remark (w : World) (r : Record) (hr : r.isRemark = true) : Deed sprite w (w.note r)
  | start (w : World) (dice : Dice) (kind : BlockKind) (depth : Nat) (hw : w.running = true) :
    Deed sprite w ({ w with dice := dice }.note (.began sprite kind depth))
  | change (w : World) (f : Sprite → Sprite) (hf : Sprite.Mild f) :
    Deed sprite w (w.update sprite f)
  | bind (w : World) (name : String) (value : Value) :
    Deed sprite w (w.mapStage (·.setVariable name value))
  | erase (w : World) : Deed sprite w (w.mapStage (·.erasePen))
  | mute (w : World) : Deed sprite w w.stopSounds
  | send (w : World) (message : String) :
    Deed sprite w ((w.note (.broadcast message)).send (.broadcast message))

abbrev Deeds (sprite : String) : World → World → Prop :=
  Relation.ReflTransGen (Deed sprite)

/-- What chains share besides the stage is as before, except for the log, the dice, the sounds
and the triggers on their way. -/
structure Steady (w w' : World) : Prop where
  state : w'.state = w.state
  running : w'.running = w.running
  sender : w'.sender = w.sender
  asks : w'.asks = w.asks
  lastAsk : w'.lastAsk = w.lastAsk
  prompts : w'.stage.prompts = w.stage.prompts

theorem Steady.refl (w : World) : w.Steady w :=
  ⟨rfl, rfl, rfl, rfl, rfl, rfl⟩

theorem Steady.trans {w w' w'' : World} (h : w.Steady w') (h' : w'.Steady w'') : w.Steady w'' :=
  ⟨h'.state.trans h.state, h'.running.trans h.running, h'.sender.trans h.sender,
    h'.asks.trans h.asks, h'.lastAsk.trans h.lastAsk, h'.prompts.trans h.prompts⟩

theorem update_steady (w : World) (sprite : String) (f : Sprite → Sprite) :
    w.Steady (w.update sprite f) :=
  ⟨rfl, rfl, rfl, rfl, rfl, w.stage.updateSprite_prompts sprite f⟩

theorem stopSounds_eq (w : World) : ∃ log, w.stopSounds =
    { w with generation := w.generation + 1, log := log } := by
  unfold stopSounds
  split
  · exact ⟨_, rfl⟩
  · exact ⟨w.log, rfl⟩

theorem Deed.steady {sprite : String} {w w' : World} (h : Deed sprite w w') : w.Steady w' := by
  cases h with
  | change f => exact w.update_steady sprite f
  | mute =>
    obtain ⟨log, he⟩ := w.stopSounds_eq
    rw [he]
    exact ⟨rfl, rfl, rfl, rfl, rfl, rfl⟩
  | _ => exact ⟨rfl, rfl, rfl, rfl, rfl, rfl⟩

theorem Deeds.steady {sprite : String} {w w' : World} (h : Deeds sprite w w') : w.Steady w' := by
  induction h with
  | refl => exact .refl w
  | tail _ hd ih => exact ih.trans hd.steady

theorem noteOverruns_deeds (w : World) (sprite : String) (b : Block) (names : List String) :
    Deeds sprite w (w.noteOverruns sprite b names) :=
  noteOverruns_induction .refl (fun v _ h => h.tail (.remark v _ rfl)) sprite b names

theorem entered_deeds {w : World} (hr : w.running = true) (sprite : String) (b : Block)
    (depth : Nat) : Deeds sprite w (w.entered sprite b depth) :=
  .head (.start w w.dice.next b.kind depth hr) (noteOverruns_deeds ..)

inductive Performed (sprite : String) (w : World) : World → Option Frame → Task → Prop
  | plain {w' : World} {frame : Option Frame} {task : Task} (hw : Deeds sprite w w')
    (ht : task.isPlain = true) : Performed sprite w w' frame task
  | ask (question : String) :
    Performed sprite w (w.ask sprite question).1 none (w.ask sprite question).2
  | request (prompt : String) :
    Performed sprite w (w.requestTexture prompt).1 none (w.requestTexture prompt).2

theorem Called.deeds {w w' : World} {depth : Nat} {task : Task} (h : w.Called depth w' task)
    (sprite : String) : Deeds sprite w w' ∧ task.isPlain = true := by
  cases h with
  | nothing | enters => exact ⟨.refl, rfl⟩
  | capped | unknown => exact ⟨.single (.remark w _ rfl), rfl⟩

theorem played_deeds (w : World) (sprite sound : String) (waits : Bool) :
    Deeds sprite w (w.played sound waits) := by
  unfold played
  split
  · exact .single (.remark w _ rfl)
  · exact .refl

theorem mapStage_congr {w : World} {f g : Stage → Stage}
    (h : f w.project.stage = g w.project.stage) : w.mapStage f = w.mapStage g := by
  unfold mapStage
  rw [h]

theorem changeVariable_deed (w : World) (sprite name : String) (amount : Float) :
    Deed sprite w (w.mapStage (·.changeVariable name amount)) := by
  -- The new value gets a name here, so that no check of types ever unfolds the addition.
  generalize hv : Value.number ((w.project.stage.valueOf name).toNumber + amount) = value
  have he : w.mapStage (·.changeVariable name amount) = w.mapStage (·.setVariable name value) := by
    apply mapStage_congr
    rw [Stage.changeVariable, hv]
  rw [he]
  exact .bind w name value

theorem Effect.performed {w w' : World} {sprite : String} {blocks : List Block} {b : Block}
    {depth : Nat} {arg : String → Value} {frame : Option Frame} {task : Task}
    (h : w.Effect sprite blocks b depth arg w' frame task) : Performed sprite w w' frame task := by
  cases h with
  | speaks speech =>
    exact .plain (.single (.change w _ (.of_same (fun _ => rfl) fun _ => rfl))) rfl
  | plays | listens => exact .plain (w.played_deeds ..) rfl
  | mutes => exact .plain (.single (.mute w)) rfl
  | broadcasts message => exact .plain (.single (.send w message)) rfl
  | delays | looks | loops | enters | nothing => exact .plain .refl rfl
  | asks question => exact .ask question
  | binds name value => exact .plain (.single (.bind w name value)) rfl
  | adds name amount => exact .plain (.single (changeVariable_deed w sprite name amount)) rfl
  | calls h =>
    obtain ⟨hw, ht⟩ := h.deeds sprite
    exact .plain hw ht
  | erases => exact .plain (.single (.erase w)) rfl
  | requests prompt => exact .request prompt
  | changes hf => exact .plain (.single (.change w _ (BlockKind.spriteChange?_mild hf))) rfl

theorem requestTexture_eq (w : World) (prompt : String) :
    ∃ log, (w.requestTexture prompt).1 =
      { w.mapStage fun s => { s with generating := s.generating + 1 } with log := log } := by
  simp only [requestTexture]
  split
  · exact ⟨_, rfl⟩
  · exact ⟨w.log, rfl⟩

/-- What came of a texture request whose wait is over: nothing if the run was stopped, and else
the answer of the generator. -/
def textureResult (w : World) (request : ObjectRequest) : Option (Except TextureError String) :=
  if w.running then some (w.services.generator request).answer else none

/-- The world after a texture request, with the object that was made of it, if any. -/
def settled (w : World) (request : ObjectRequest) : World :=
  match w.textureResult request with
  | some (.ok texture) =>
    w.settleTexture.mapStage fun s => (s.addObject request.kind request.prompt texture).1
  | _ => w.settleTexture

theorem settled_steady (w : World) (request : ObjectRequest) : w.Steady (w.settled request) := by
  unfold settled
  split <;> exact ⟨rfl, rfl, rfl, rfl, rfl, rfl⟩

end World

theorem Task.isPlain_pause {purpose : Purpose} (h : purpose.isTexture = false) (due : Option Nat) :
    (Task.pause due purpose).isPlain = true ∧ (Task.wait (.pause due purpose)).isPlain = true := by
  cases purpose with
  | texture request => cases h
  | _ => exact ⟨rfl, rfl⟩

theorem Purpose.eq_texture {purpose : Purpose} (h : purpose.isTexture = true) :
    ∃ request, purpose = .texture request := by
  cases purpose with
  | texture request => exact ⟨request, rfl⟩
  | _ => cases h

namespace World

theorem Sequel.deeds {w w' : World} {sprite : String} {frames frames' : List Frame}
    {purpose : Purpose} {task : Task}
    (h : w.Sequel sprite frames w.running purpose w' frames' task) :
    task.isPlain = true ∧ (purpose.isTexture = false ∧ Deeds sprite w w' ∨
      ∃ request, purpose = .texture request ∧ Deeds sprite (w.settled request) w') := by
  cases h with
  | next | last | looks => exact ⟨rfl, .inl ⟨rfl, .refl⟩⟩
  | hushes => exact ⟨rfl, .inl ⟨rfl, .single (.change w _ Sprite.hush_mild)⟩⟩
  | cleans =>
    refine ⟨rfl, .inl ⟨rfl, .single (.change w _ (.of_same (fun s => ?_) fun s => ?_))⟩⟩
    · split <;> rfl
    · split <;> rfl
  | goesOn hp => exact ⟨rfl, .inl ⟨hp, .refl⟩⟩
  | @creates request texture hg ha id =>
    refine ⟨rfl, .inr ⟨request, rfl, ?_⟩⟩
    simp only [settled, textureResult, if_pos hg, ha]
    exact .single (.remark _ _ rfl)
  | @fails request error hg ha =>
    refine ⟨rfl, .inr ⟨request, rfl, ?_⟩⟩
    simp only [settled, textureResult, if_pos hg, ha]
    exact .head (.remark _ _ rfl) (.single (.change _ _ (.of_same (fun _ => rfl) fun _ => rfl)))
  | discards hg request =>
    refine ⟨rfl, .inr ⟨request, rfl, ?_⟩⟩
    simp only [settled, textureResult, hg]
    exact .single (.remark _ _ rfl)

end World

namespace Chain

/-- What one step of a chain comes to. -/
inductive Stepped (w : World) (c : Chain) : World → Option Chain → Prop
  | plain {w' : World} {c' : Option Chain} (hc : c.task.isPlain = true)
    (hw : w.Deeds c.sprite w')
    (h' : ∀ d ∈ c', d.task.isPlain = true ∧ d.id = c.id ∧ d.sprite = c.sprite) : Stepped w c w' c'
  | ask {w₁ : World} (hc : c.task.isPlain = true) (hr : w.running = true)
    (hw : w.Deeds c.sprite w₁) (question : String) (frames : List Frame) :
    Stepped w c (w₁.ask c.sprite question).1
      (some { c with frames := frames, task := .wait (.reply (w₁.lastAsk + 1) none) })
  | request {w₁ : World} (hc : c.task.isPlain = true) (hw : w.Deeds c.sprite w₁)
    (prompt : String) (frames : List Frame) :
    Stepped w c (w₁.requestTexture prompt).1
      (some { c with frames := frames, task := (w₁.requestTexture prompt).2 })
  | await {duration due : Option Nat} {request : ObjectRequest}
    (hc : c.task = .pause duration (.texture request)) :
    Stepped w c w (some { c with task := .wait (.pause due (.texture request)) })
  | stay : Stepped w c w (some c)
  | settle {w' : World} {d : Chain} {due : Option Nat} {request : ObjectRequest}
    (hc : c.task = .pause due (.texture request) ∨ c.task = .wait (.pause due (.texture request)))
    (hw : (w.settled request).Deeds c.sprite w')
    (h' : d.task.isPlain = true ∧ d.id = c.id ∧ d.sprite = c.sprite) : Stepped w c w' (some d)
  | answered {ask : Nat} {text : String} (hc : c.task = .wait (.reply ask (some text))) :
    Stepped w c (w.afterReply c.sprite ask text) (some { c with task := .resume })

theorem Stepped.of_sequel {w w' : World} {c : Chain} {due : Option Nat} {purpose : Purpose}
    {frames : List Frame} {task : Task}
    (hc : c.task = .pause due purpose ∨ c.task = .wait (.pause due purpose))
    (h : w.Sequel c.sprite c.frames w.running purpose w' frames task) :
    Stepped w c w' (some { c with frames := frames, task := task }) := by
  obtain ⟨ht, ⟨hp, hw⟩ | ⟨request, rfl, hw⟩⟩ := h.deeds
  · refine .plain ?_ hw (by simpa using ht)
    rcases hc with hc | hc
    · rw [hc]
      exact (Task.isPlain_pause hp due).1
    · rw [hc]
      exact (Task.isPlain_pause hp due).2
  · exact .settle hc hw ⟨ht, rfl, rfl⟩

theorem step_cases (scripts : Table Script) (w : World) (c : Chain) :
    Stepped w c (c.step scripts w).1 (c.step scripts w).2 := by
  have hs := c.step_transition scripts w
  generalize (c.step scripts w).1 = w', (c.step scripts w).2 = c' at hs ⊢
  have hplain {task : Task} (ht : c.task = task) (hp : task.isPlain = true) :
      c.task.isPlain = true := ht ▸ hp
  cases hs with
  | @begins blocks b depth w' frame task ht hr hp =>
    have hd := World.entered_deeds hr c.sprite b depth
    cases (World.Effect.of_perform hp).performed with
    | plain hw hp => exact .plain (hplain ht rfl) (hd.trans hw) (by simpa using hp)
    | ask question => exact .ask (hplain ht rfl) hr hd question _
    | request prompt => exact .request (hplain ht rfl) hd prompt _
  | first ht | passes ht | enters ht | hollow ht | again ht | leaves ht | astray ht | finishes ht
  | rounds ht => exact .plain (hplain ht rfl) .refl (by simp [Task.isPlain])
  | bare ht | ends ht => exact .plain (hplain ht rfl) .refl (by simp)
  | capped ht => exact .plain (hplain ht rfl) (.single (.remark w _ rfl)) (by simp [Task.isPlain])
  | sees ht | misses ht =>
    exact .plain (hplain ht rfl) (World.noteOverruns_deeds ..) (by simp [Task.isPlain])
  | @waits duration purpose ht =>
    cases hp : purpose.isTexture with
    | false =>
      refine .plain (hplain ht (Task.isPlain_pause hp duration).1) .refl ?_
      simpa using (Task.isPlain_pause hp (duration.map (w.now + ·))).2
    | true =>
      obtain ⟨request, rfl⟩ := Purpose.eq_texture hp
      exact .await ht
  | hurries ht hd hq => exact .of_sequel (.inl ht) hq
  | wakes ht ho hq => exact .of_sequel (.inr ht) hq
  | stays => exact .stay
  | hears ht => exact .answered ht

theorem step_same_run (scripts : Table Script) (w : World) (c : Chain) :
    (c.step scripts w).1.state = w.state ∧ (c.step scripts w).1.running = w.running ∧
      (c.step scripts w).1.sender = w.sender := by
  have hs := step_cases scripts w c
  generalize (c.step scripts w).1 = w', (c.step scripts w).2 = c' at hs
  cases hs with
  | plain hc hw h' => exact ⟨hw.steady.state, hw.steady.running, hw.steady.sender⟩
  | ask hc hr hw question frames => exact ⟨hw.steady.state, hw.steady.running, hw.steady.sender⟩
  | @request w₁ hc hw prompt frames =>
    obtain ⟨log, he⟩ := w₁.requestTexture_eq prompt
    rw [he]
    exact ⟨hw.steady.state, hw.steady.running, hw.steady.sender⟩
  | @settle w' d due request hc hw h' =>
    have hs := (w.settled_steady request).trans hw.steady
    exact ⟨hs.state, hs.running, hs.sender⟩
  | answered hc =>
    unfold World.afterReply
    split <;> exact ⟨rfl, rfl, rfl⟩
  | _ => exact ⟨rfl, rfl, rfl⟩

theorem step_id {scripts : Table Script} {w : World} {c d : Chain}
    (h : (c.step scripts w).2 = some d) : d.id = c.id ∧ d.sprite = c.sprite := by
  have hs := step_cases scripts w c
  generalize (c.step scripts w).1 = w', (c.step scripts w).2 = c' at hs h
  subst h
  cases hs with
  | plain hc hw h' => exact (h' d rfl).2
  | settle hc hw h' => exact h'.2
  | _ => exact ⟨rfl, rfl⟩

theorem run_induction {scripts : Table Script} {P : World → Option Chain → Prop}
    (step : ∀ w c, P w (some c) → P (c.step scripts w).1 (c.step scripts w).2) {w : World}
    {c : Chain} (h : P w (some c)) (fuel : Nat) :
    P (c.run scripts fuel w).1 (c.run scripts fuel w).2 := by
  induction fuel generalizing w c with
  | zero => exact h
  | succ fuel ih =>
    have hs := step w c h
    rw [run]
    generalize c.step scripts w = p at hs
    obtain ⟨w', _ | d⟩ := p
    · exact hs
    · simp only
      split
      · exact hs
      · exact ih hs

theorem run_same_run (scripts : Table Script) (fuel : Nat) (w : World) (c : Chain) :
    (c.run scripts fuel w).1.state = w.state ∧ (c.run scripts fuel w).1.running = w.running ∧
      (c.run scripts fuel w).1.sender = w.sender := by
  apply run_induction (P := fun v _ => v.state = w.state ∧ v.running = w.running ∧
    v.sender = w.sender)
  · intro v d hv
    obtain ⟨h₁, h₂, h₃⟩ := d.step_same_run scripts v
    exact ⟨h₁.trans hv.1, h₂.trans hv.2.1, h₃.trans hv.2.2⟩
  · exact ⟨rfl, rfl, rfl⟩

theorem run_id {scripts : Table Script} {fuel : Nat} {w : World} {c d : Chain}
    (h : (c.run scripts fuel w).2 = some d) : d.id = c.id ∧ d.sprite = c.sprite := by
  have hr : ∀ d' ∈ (c.run scripts fuel w).2, d'.id = c.id ∧ d'.sprite = c.sprite := by
    apply run_induction (P := fun _ d => ∀ d' ∈ d, d'.id = c.id ∧ d'.sprite = c.sprite)
    · intro w e he d hd
      obtain ⟨hi, hs⟩ := step_id hd
      exact ⟨hi.trans (he e rfl).1, hs.trans (he e rfl).2⟩
    · intro d hd
      cases hd
      exact ⟨rfl, rfl⟩
  exact hr d h

end Chain

end BlockScript

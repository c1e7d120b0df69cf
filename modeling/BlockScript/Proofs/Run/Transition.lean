import BlockScript.Run.Resume

/-! Transitions. What one step of a chain may come to is listed here once, for the step and for each
function that it is made of, and what is shown of steps goes by these cases. -/

namespace BlockScript

def Purpose.isTexture : Purpose → Bool
  | .texture _ => true
  | _ => false

/-- Whether the innermost frame is a block. -/
def Frame.onStep : List Frame → Bool
  | .step .. :: _ => true
  | _ => false

namespace World

theorem noteOverruns_induction {P : World → Prop} {w : World} (first : P w)
    (step : ∀ v cap, P v → P (v.note (.overrun cap))) (sprite : String) (b : Block)
    (names : List String) : P (w.noteOverruns sprite b names) := by
  have hn (cap n : Nat) (v : World) (hv : P v) :
      P ((List.replicate n (Record.overrun cap)).foldl note v) := by
    induction n generalizing v with
    | zero => exact hv
    | succ n ih => exact ih (v.note _) (step v cap hv)
  exact hn _ _ w first

theorem noteOverruns_eq (w : World) (sprite : String) (b : Block) (names : List String) :
    ∃ log, w.noteOverruns sprite b names = { w with log := log } :=
  noteOverruns_induction (P := fun v => ∃ log, v = { w with log := log }) ⟨w.log, rfl⟩
    (fun v cap ⟨log, hv⟩ => ⟨(v.note (.overrun cap)).log, by rw [hv]; rfl⟩) sprite b names

/-- The world in which the step `b` reads its parameters. -/
def entered (w : World) (sprite : String) (b : Block) (depth : Nat) : World :=
  ({ w with dice := w.dice.next }.note (.began sprite b.kind depth)).noteOverruns sprite b
    b.kind.readAtStart

theorem began_eq (w : World) (dice : Dice) (r : Record) (sprite : String) (b : Block)
    (names : List String) :
    ∃ log, (World.note { w with dice := dice } r).noteOverruns sprite b names =
      { w with dice := dice, log := log } := by
  obtain ⟨log, hlog⟩ := (World.note { w with dice := dice } r).noteOverruns_eq sprite b names
  exact ⟨log, hlog⟩

/-- The dice get a name here, so that no check of types ever computes the next ones. -/
theorem entered_eq (w : World) (sprite : String) (b : Block) (depth : Nat) :
    ∃ dice log, w.entered sprite b depth = { w with dice := dice, log := log } :=
  ⟨_, w.began_eq w.dice.next (.began sprite b.kind depth) sprite b b.kind.readAtStart⟩

inductive Called (w : World) (depth : Nat) : World → Task → Prop
  | nothing : Called w depth w .resume
  | capped (name : String) :
    Called w depth (w.note (.callSkipped name w.options.maxDepth)) .resume
  | unknown (name : String) : Called w depth (w.note (.noScript name)) .resume
  | enters (hd : depth < w.options.maxDepth) (blocks : List Block) (first : Block) :
    Called w depth w (.block blocks first (depth + 1))

theorem call_called (w : World) (scripts : Table Script) (sprite name : String) (depth : Nat) :
    w.Called depth (w.call scripts sprite name depth).1 (w.call scripts sprite name depth).2 := by
  simp only [call]
  split
  · exact .nothing
  · split
    · exact .capped _
    · rename_i hd
      split
      · exact .unknown _
      · split
        · exact .enters (Nat.lt_of_not_le hd) ..
        · exact .nothing

theorem Called.eq {w w' : World} {depth : Nat} {task : Task} (h : w.Called depth w' task) :
    ∃ log, w' = { w with log := log } := by
  cases h <;> exact ⟨_, rfl⟩

/-- The world in which a sound has begun to play. -/
def played (w : World) (sound : String) (waits : Bool) : World :=
  if w.services.tracksSounds then w.note (.played sound waits) else w

theorem played_eq (w : World) (sound : String) (waits : Bool) :
    ∃ log, w.played sound waits = { w with log := log } := by
  unfold played
  split
  · exact ⟨_, rfl⟩
  · exact ⟨w.log, rfl⟩

/-- What may come of a block that runs as a step. -/
inductive Effect (w : World) (sprite : String) (blocks : List Block) (b : Block) (depth : Nat)
    (arg : String → Value) : World → Option Frame → Task → Prop
  | speaks (speech : Speech) (seconds : Float) :
    Effect w sprite blocks b depth arg (w.update sprite fun s => { s with speech := some speech })
      none (.pause (milliseconds seconds) .speech)
  | plays (sound : String) (waits : Bool) :
    Effect w sprite blocks b depth arg (w.played sound waits) none .resume
  | listens (hk : b.kind = .playSoundUntilDone) {length : Nat}
    (hl : soundLength? (arg "sound").toText = some length) :
    Effect w sprite blocks b depth arg (w.played (arg "sound").toText true) none
      (.pause (some length) (.sound (w.played (arg "sound").toText true).generation))
  | mutes (hk : b.kind = .stopSounds) :
    Effect w sprite blocks b depth arg w.stopSounds none .resume
  | broadcasts (message : String) :
    Effect w sprite blocks b depth arg
      ((w.note (.broadcast message)).send (.broadcast message)) none .resume
  | delays (seconds : Float) :
    Effect w sprite blocks b depth arg w none (.pause (milliseconds seconds) .delay)
  | looks : Effect w sprite blocks b depth arg w none (.look b)
  | loops (times : Option Float) :
    Effect w sprite blocks b depth arg w (some (.loop blocks b depth 0 times)) .round
  | enters : Effect w sprite blocks b depth arg w none (.body blocks b depth)
  | asks (question : String) :
    Effect w sprite blocks b depth arg (w.ask sprite question).1 none (w.ask sprite question).2
  | binds (name : String) (value : Value) :
    Effect w sprite blocks b depth arg (w.mapStage (·.setVariable name value)) none .resume
  | adds (name : String) (amount : Float) :
    Effect w sprite blocks b depth arg (w.mapStage (·.changeVariable name amount)) none .resume
  | calls {w' : World} {task : Task} (h : w.Called depth w' task) :
    Effect w sprite blocks b depth arg w' none task
  | erases (hk : b.kind = .eraseAll) :
    Effect w sprite blocks b depth arg (w.mapStage (·.erasePen)) none .resume
  | requests (prompt : String) :
    Effect w sprite blocks b depth arg (w.requestTexture prompt).1 none
      (w.requestTexture prompt).2
  | changes {f : Sprite → Sprite}
    (hf : b.kind.spriteChange? arg w.stage.input.mouse w.dice = some f) :
    Effect w sprite blocks b depth arg (w.update sprite f) none .resume
  | nothing : Effect w sprite blocks b depth arg w none .resume

theorem perform_effect (w : World) (scripts : Table Script) (sprite : String)
    (blocks : List Block) (b : Block) (depth : Nat) (arg : String → Value) :
    w.Effect sprite blocks b depth arg (w.perform scripts sprite blocks b depth arg).1
      (w.perform scripts sprite blocks b depth arg).2.1
      (w.perform scripts sprite blocks b depth arg).2.2 := by
  simp only [perform]
  split
  · exact .speaks ..
  · exact .speaks ..
  · exact .plays ..
  · rename_i hk
    split
    · rename_i hl
      exact .listens hk hl
    · exact .plays ..
  · exact .mutes ‹_›
  · exact .broadcasts _
  · exact .delays _
  · exact .looks
  · exact .loops _
  · exact .loops _
  · split
    · exact .enters
    · exact .nothing
  · exact .asks _
  · split
    · exact .nothing
    · exact .binds ..
  · split
    · exact .nothing
    · exact .adds ..
  · exact .calls (w.call_called ..)
  · exact .erases ‹_›
  · exact .requests _
  · split
    · exact .changes ‹_›
    · exact .nothing

theorem Effect.of_perform {w w' : World} {scripts : Table Script} {sprite : String}
    {blocks : List Block} {b : Block} {depth : Nat} {arg : String → Value} {frame : Option Frame}
    {task : Task} (h : w.perform scripts sprite blocks b depth arg = (w', frame, task)) :
    w.Effect sprite blocks b depth arg w' frame task := by
  have he := w.perform_effect scripts sprite blocks b depth arg
  rw [h] at he
  exact he

def settleTexture (w : World) : World :=
  w.mapStage fun s => { s with generating := s.generating - 1 }

inductive Sequel (w : World) (sprite : String) (frames : List Frame) (going : Bool) :
    Purpose → World → List Frame → Task → Prop
  | next {blocks : List Block} {b : Block} {depth : Nat} {outer : List Frame} {next : Block}
    (hf : frames = .step blocks b depth :: outer) (hg : going = true)
    (hs : Layout.successor blocks b = some next) :
    Sequel w sprite frames going .step w outer (.block blocks next depth)
  | last {blocks : List Block} {b : Block} {depth : Nat} {outer : List Frame}
    (hf : frames = .step blocks b depth :: outer)
    (hs : going = true → Layout.successor blocks b = none) :
    Sequel w sprite frames going .step w outer .resume
  | hushes (hg : going = true) :
    Sequel w sprite frames going .speech (w.update sprite Sprite.hush) frames .resume
  | looks (hg : going = true) (b : Block) :
    Sequel w sprite frames going (.condition b) w frames (.look b)
  | creates {request : ObjectRequest} {texture : String} (hg : going = true)
    (ha : (w.services.generator request).answer = .ok texture) (id : String) :
    Sequel w sprite frames going (.texture request)
      ((w.settleTexture.mapStage fun s => (s.addObject request.kind request.prompt texture).1).note
        (.objectCreated request.kind id)) frames .resume
  | fails {request : ObjectRequest} {error : TextureError} (hg : going = true)
    (ha : (w.services.generator request).answer = .error error) :
    Sequel w sprite frames going (.texture request)
      ((w.settleTexture.note (.textureFailed request.prompt error)).update sprite fun s =>
        { s with speech := some ⟨.say, failureMessage⟩ })
      frames (.pause (some w.options.failureDelay) .failure)
  | discards (hg : going = false) (request : ObjectRequest) :
    Sequel w sprite frames going (.texture request)
      (w.settleTexture.note (.textureDiscarded request.prompt)) frames .resume
  | cleans :
    Sequel w sprite frames going .failure
      (w.update sprite fun s =>
        if s.speech.map (·.text) = some failureMessage then s.hush else s) frames .resume
  | goesOn {purpose : Purpose} (hp : purpose.isTexture = false)
    (hf : purpose = .step → Frame.onStep frames = false) :
    Sequel w sprite frames going purpose w frames .resume

theorem afterPause_sequel (w : World) (sprite : String) (frames : List Frame) (going : Bool)
    (purpose : Purpose) :
    w.Sequel sprite frames going purpose (w.afterPause sprite frames going purpose).1
      (w.afterPause sprite frames going purpose).2.1
      (w.afterPause sprite frames going purpose).2.2 := by
  cases purpose with
  | step =>
    cases frames with
    | nil => exact .goesOn rfl fun _ => rfl
    | cons frame outer =>
      cases frame with
      | loop => exact .goesOn rfl fun _ => rfl
      | step blocks b depth =>
        simp only [afterPause]
        split
        · rename_i hg
          split
          · exact .next rfl hg ‹_›
          · exact .last rfl fun _ => ‹_›
        · rename_i hg
          exact .last rfl fun h => absurd h hg
  | speech =>
    simp only [afterPause]
    split
    · exact .hushes ‹_›
    · exact .goesOn rfl nofun
  | condition b =>
    simp only [afterPause]
    split
    · exact .looks ‹_› b
    · exact .goesOn rfl nofun
  | texture request =>
    simp only [afterPause]
    split
    · rename_i hg
      split
      · exact .creates hg ‹_› _
      · exact .fails hg ‹_›
    · rename_i hg
      exact .discards (by simpa using hg) request
  | failure => exact .cleans
  | emptyBody | delay | sound => exact .goesOn rfl nofun

end World

namespace Chain

/-- The chain inside of the step `b`, which has been performed. -/
def inside (c : Chain) (blocks : List Block) (b : Block) (depth : Nat)
    (p : World × Option Frame × Task) : World × Option Chain :=
  (p.1, some { c with frames := p.2.1.toList ++ .step blocks b depth :: c.frames, task := p.2.2 })

theorem step_entered {w : World} {c : Chain} {blocks : List Block} {b : Block} {depth : Nat}
    (ht : c.task = .block blocks b depth) (hr : w.running = true) (scripts : Table Script) :
    c.step scripts w = c.inside blocks b depth
      ((w.entered c.sprite b depth).perform scripts c.sprite blocks b depth
        ((w.entered c.sprite b depth).read c.sprite b)) := by
  simp only [step, ht, if_pos hr, World.entered, inside]

theorem receive_cases (c : Chain) (ask : Nat) (answer : String) :
    c.receive ask answer = c ∨ c.task = .wait (.reply ask none) ∧
      c.receive ask answer = { c with task := .wait (.reply ask (some answer)) } := by
  unfold receive awaits
  split
  · rename_i a ht
    by_cases ha : a = ask
    · subst ha
      exact .inr ⟨ht, if_pos (beq_self_eq_true a)⟩
    · exact .inl (if_neg (by simpa using ha))
  · exact .inl (if_neg Bool.false_ne_true)

/-- What one step of a chain may come to. -/
inductive Transition (scripts : Table Script) (w : World) (c : Chain) :
    World → Option Chain → Prop
  | first {blocks : List Block} {hat b : Block} (ht : c.task = .start blocks hat)
    (hs : Layout.successor blocks hat = some b) :
    Transition scripts w c w (some { c with task := .block blocks b 0 })
  | bare {blocks : List Block} {hat : Block} (ht : c.task = .start blocks hat)
    (hs : Layout.successor blocks hat = none) : Transition scripts w c w none
  | begins {blocks : List Block} {b : Block} {depth : Nat} {w' : World} {frame : Option Frame}
    {task : Task} (ht : c.task = .block blocks b depth) (hr : w.running = true)
    (hp : (w.entered c.sprite b depth).perform scripts c.sprite blocks b depth
      ((w.entered c.sprite b depth).read c.sprite b) = (w', frame, task)) :
    Transition scripts w c w'
      (some { c with frames := frame.toList ++ .step blocks b depth :: c.frames, task := task })
  | passes {blocks : List Block} {b : Block} {depth : Nat} (ht : c.task = .block blocks b depth)
    (hr : w.running = false) : Transition scripts w c w (some { c with task := .resume })
  | capped {blocks : List Block} {b : Block} {depth : Nat} (ht : c.task = .body blocks b depth)
    (hd : w.options.maxDepth ≤ depth) :
    Transition scripts w c (w.note (.bodySkipped b.id w.options.maxDepth))
      (some { c with task := .pause (some w.options.stepDelay) .emptyBody })
  | enters {blocks : List Block} {b first : Block} {depth : Nat}
    (ht : c.task = .body blocks b depth) (hd : depth < w.options.maxDepth)
    (hs : Layout.firstChild blocks b = some first) :
    Transition scripts w c w (some { c with task := .block blocks first (depth + 1) })
  | hollow {blocks : List Block} {b : Block} {depth : Nat} (ht : c.task = .body blocks b depth)
    (hs : Layout.firstChild blocks b = none) :
    Transition scripts w c w
      (some { c with task := .pause (some w.options.stepDelay) .emptyBody })
  | again {blocks : List Block} {b : Block} {depth : Nat} {done : Float} {times : Option Float}
    {outer : List Frame} (ht : c.task = .round)
    (hf : c.frames = .loop blocks b depth done times :: outer) (hr : w.running = true) :
    Transition scripts w c w (some { c with task := .body blocks b depth })
  | leaves {blocks : List Block} {b : Block} {depth : Nat} {done : Float} {times : Option Float}
    {outer : List Frame} (ht : c.task = .round)
    (hf : c.frames = .loop blocks b depth done times :: outer) :
    Transition scripts w c w (some { c with frames := outer, task := .resume })
  | astray (ht : c.task = .round)
    (hf : ∀ blocks b depth done times outer,
      c.frames ≠ .loop blocks b depth done times :: outer) :
    Transition scripts w c w (some { c with task := .resume })
  | sees {b : Block} (ht : c.task = .look b)
    (hb : (w.read c.sprite b "condition").isTruthy = true) :
    Transition scripts w c (w.noteOverruns c.sprite b ["condition"])
      (some { c with task := .resume })
  | misses {b : Block} (ht : c.task = .look b)
    (hb : (w.read c.sprite b "condition").isTruthy = false) :
    Transition scripts w c (w.noteOverruns c.sprite b ["condition"])
      (some { c with task := .pause (some w.options.stepDelay) (.condition b) })
  | waits {duration : Option Nat} {purpose : Purpose} (ht : c.task = .pause duration purpose)
    (hr : w.running = true) (hd : duration ≠ some 0) :
    Transition scripts w c w
      (some { c with task := .wait (.pause (duration.map (w.now + ·)) purpose) })
  | hurries {duration : Option Nat} {purpose : Purpose} {w' : World} {frames : List Frame}
    {task : Task} (ht : c.task = .pause duration purpose)
    (hd : w.running = true → duration = some 0)
    (hq : w.Sequel c.sprite c.frames w.running purpose w' frames task) :
    Transition scripts w c w' (some { c with frames := frames, task := task })
  | wakes {due : Option Nat} {purpose : Purpose} {w' : World} {frames : List Frame} {task : Task}
    (ht : c.task = .wait (.pause due purpose)) (ho : w.isOver (.pause due purpose) = true)
    (hq : w.Sequel c.sprite c.frames w.running purpose w' frames task) :
    Transition scripts w c w' (some { c with frames := frames, task := task })
  | hears {ask : Nat} {answer : String} (ht : c.task = .wait (.reply ask (some answer))) :
    Transition scripts w c (w.afterReply c.sprite ask answer) (some { c with task := .resume })
  | stays {wait : Wait} (ht : c.task = .wait wait) (ho : w.isOver wait = false) :
    Transition scripts w c w (some c)
  | ends (ht : c.task = .resume) (hf : c.frames = []) : Transition scripts w c w none
  | finishes {blocks : List Block} {b : Block} {depth : Nat} {outer : List Frame}
    (ht : c.task = .resume) (hf : c.frames = .step blocks b depth :: outer) :
    Transition scripts w c w (some { c with task := .pause (some w.options.stepDelay) .step })
  | rounds {blocks : List Block} {b : Block} {depth : Nat} {done : Float} {times : Option Float}
    {outer : List Frame} (ht : c.task = .resume)
    (hf : c.frames = .loop blocks b depth done times :: outer) :
    Transition scripts w c w (some { c with
      frames := .loop blocks b depth (done + 1) times :: outer
      task := .round })

theorem step_transition (scripts : Table Script) (w : World) (c : Chain) :
    c.Transition scripts w (c.step scripts w).1 (c.step scripts w).2 := by
  cases ht : c.task with
  | start blocks hat =>
    simp only [step, ht]
    split
    · exact .first ht ‹_›
    · exact .bare ht ‹_›
  | block blocks b depth =>
    cases hr : w.running with
    | true =>
      rw [step_entered ht hr]
      exact .begins ht hr rfl
    | false =>
      simp only [step, ht, hr]
      exact .passes ht hr
  | body blocks b depth =>
    simp only [step, ht]
    split
    · exact .capped ht ‹_›
    · rename_i hd
      split
      · exact .enters ht (Nat.lt_of_not_le hd) ‹_›
      · exact .hollow ht ‹_›
  | round =>
    simp only [step, ht]
    split
    · rename_i hf
      split
      · rename_i hr
        exact .again ht hf (Bool.and_eq_true_iff.mp hr).1
      · exact .leaves ht hf
    · exact .astray ht ‹_›
  | look b =>
    simp only [step, ht]
    split
    · exact .sees ht ‹_›
    · rename_i hb
      exact .misses ht (by simpa using hb)
  | pause duration purpose =>
    simp only [step, ht]
    split
    · rename_i hd
      simp only [Bool.and_eq_true, bne_iff_ne, ne_eq] at hd
      exact .waits ht hd.1 hd.2
    · rename_i hd
      refine .hurries ht (fun hr => ?_) (w.afterPause_sequel ..)
      simpa [hr] using hd
  | resume =>
    simp only [step, ht]
    split
    · exact .ends ht ‹_›
    · exact .finishes ht ‹_›
    · exact .rounds ht ‹_›
  | wait wait =>
    cases wait with
    | pause due purpose =>
      simp only [step, ht]
      split
      · exact .wakes ht ‹_› (w.afterPause_sequel ..)
      · rename_i ho
        exact .stays ht (by simpa using ho)
    | reply ask answer =>
      cases answer with
      | none =>
        simp only [step, ht]
        exact .stays ht rfl
      | some answer =>
        simp only [step, ht]
        exact .hears ht

end Chain

end BlockScript

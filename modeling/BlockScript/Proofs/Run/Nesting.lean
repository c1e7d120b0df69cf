import BlockScript.Proofs.Run.Stop

/-! How deep blocks nest. In one resumption each block begins one level below the block before
it, and the levels are capped, so a chain waits or ends after few steps, whatever its loops and
scripts do. -/

namespace BlockScript

def Record.depth? : Record → Option Nat
  | began _ _ depth => some depth
  | _ => none

/-- The level inside the innermost frame, if that is a loop. -/
def Frame.loopLevel? : List Frame → Option Nat
  | .loop _ _ depth _ _ :: _ => some (depth + 1)
  | _ => none

/-- No block is nested too deeply, and loops stand on the block they belong to. -/
def Frame.Nested (cap : Nat) : List Frame → Prop
  | [] => True
  | .step _ _ depth :: outer => depth ≤ cap ∧ Nested cap outer
  | .loop .. :: outer => onStep outer = true ∧ Nested cap outer

/-- Whether the pause is part of what a block does. -/
def Purpose.isInner : Purpose → Bool
  | .step | .emptyBody => false
  | _ => true

/-- Whether the pause lasts as long as the pause after a block. -/
def Purpose.isTick : Purpose → Bool
  | .step | .emptyBody | .condition _ => true
  | _ => false

/-- Whether the task is the work of a block that begins no other block. -/
def Task.winds : Task → Bool
  | .look _ | .resume | .wait (.reply ..) => true
  | .pause _ purpose => purpose.isInner && !purpose.isTick
  | _ => false

/-- The task begins no block too deep, stands on a block if it is the work of one, and makes
pauses of the length they have. -/
def Task.Fits (o : Options) (frames : List Frame) : Task → Prop
  | .block _ _ depth => depth ≤ o.maxDepth
  | .look _ | .wait (.reply ..) => Frame.onStep frames = true
  | .pause duration purpose =>
    (purpose.isInner = true → Frame.onStep frames = true) ∧
      (purpose.isTick = true → duration = some o.stepDelay)
  | .wait (.pause _ purpose) => purpose.isInner = true → Frame.onStep frames = true
  | _ => True

namespace World

/-- The depths at which blocks have begun, in order. -/
def depths (w : World) : List Nat :=
  w.log.toList.filterMap (·.2.depth?)

theorem depths_note (w : World) (r : Record) : (w.note r).depths = w.depths ++ r.depth?.toList := by
  simp only [depths, note, Array.toList_push, List.filterMap_append]
  cases h : r.depth? <;> simp [h]

theorem depths_remark (w : World) {r : Record} (h : r.depth? = none) :
    (w.note r).depths = w.depths := by
  rw [depths_note, h, Option.toList_none, List.append_nil]

/-- No block begins, and the options are as before. -/
structure Quiet (w w' : World) : Prop where
  depths : w'.depths = w.depths
  options : w'.options = w.options

theorem Quiet.refl (w : World) : w.Quiet w :=
  ⟨rfl, rfl⟩

theorem Quiet.trans {w w' w'' : World} (h : w.Quiet w') (h' : w'.Quiet w'') : w.Quiet w'' :=
  ⟨h'.depths.trans h.depths, h'.options.trans h.options⟩

theorem note_quiet (w : World) {r : Record} (h : r.depth? = none) : w.Quiet (w.note r) :=
  ⟨w.depths_remark h, rfl⟩

theorem noteOverruns_quiet (w : World) (sprite : String) (b : Block) (names : List String) :
    w.Quiet (w.noteOverruns sprite b names) :=
  noteOverruns_induction (.refl w) (fun v _ h => h.trans (v.note_quiet rfl)) sprite b names

theorem played_quiet (w : World) (sound : String) (waits : Bool) :
    w.Quiet (w.played sound waits) := by
  unfold played
  split
  · exact w.note_quiet rfl
  · exact .refl w

theorem stopSounds_quiet (w : World) : w.Quiet w.stopSounds := by
  unfold stopSounds
  split
  · exact ⟨w.depths_remark rfl, rfl⟩
  · exact ⟨rfl, rfl⟩

theorem began_depths (w : World) (dice : Dice) (sprite : String) (b : Block) (depth : Nat)
    (names : List String) :
    let w' := ({ w with dice := dice }.note (.began sprite b.kind depth)).noteOverruns sprite b names
    w'.depths = w.depths ++ [depth] ∧ w'.options = w.options := by
  let noted := { w with dice := dice }.note (.began sprite b.kind depth)
  have hnoted : noted.depths = w.depths ++ [depth] := World.depths_note _ _
  have hquiet := noted.noteOverruns_quiet sprite b names
  exact ⟨hquiet.depths.trans hnoted, hquiet.options⟩

theorem entered_depths (w : World) (sprite : String) (b : Block) (depth : Nat) :
    (w.entered sprite b depth).depths = w.depths ++ [depth] ∧
      (w.entered sprite b depth).options = w.options :=
  w.began_depths w.dice.next sprite b depth b.kind.readAtStart

/-- What a block that begins goes on with: rounds of its loop, its body, the body of a script
inside the cap, or something that begins no block. -/
inductive Entered (cap : Nat) (blocks : List Block) (b : Block) (depth : Nat) :
    Option Frame → Task → Prop
  | loop {done : Float} {times : Option Float} :
    Entered cap blocks b depth (some (.loop blocks b depth done times)) .round
  | body : Entered cap blocks b depth none (.body blocks b depth)
  | script {blocks' : List Block} {first : Block} (h : depth < cap) :
    Entered cap blocks b depth none (.block blocks' first (depth + 1))
  | winds {task : Task} (h : task.winds = true) : Entered cap blocks b depth none task

theorem Called.entered {w w' : World} {depth : Nat} {task : Task} (h : w.Called depth w' task)
    (blocks : List Block) (b : Block) :
    w.Quiet w' ∧ Entered w.options.maxDepth blocks b depth none task := by
  cases h with
  | nothing => exact ⟨.refl w, .winds rfl⟩
  | capped | unknown => exact ⟨w.note_quiet rfl, .winds rfl⟩
  | enters hd => exact ⟨.refl w, .script hd⟩

theorem Effect.entered {w w' : World} {sprite : String} {blocks : List Block} {b : Block}
    {depth : Nat} {arg : String → Value} {frame : Option Frame} {task : Task}
    (h : w.Effect sprite blocks b depth arg w' frame task) :
    w.Quiet w' ∧ Entered w.options.maxDepth blocks b depth frame task := by
  cases h with
  | speaks | asks | binds | adds | erases | changes => exact ⟨⟨rfl, rfl⟩, .winds rfl⟩
  | plays | listens => exact ⟨w.played_quiet .., .winds rfl⟩
  | mutes => exact ⟨w.stopSounds_quiet, .winds rfl⟩
  | broadcasts => exact ⟨⟨w.depths_remark rfl, rfl⟩, .winds rfl⟩
  | delays | looks | nothing => exact ⟨.refl w, .winds rfl⟩
  | loops => exact ⟨.refl w, .loop⟩
  | enters => exact ⟨.refl w, .body⟩
  | calls h => exact h.entered blocks b
  | requests =>
    simp only [requestTexture]
    split
    · exact ⟨⟨World.depths_remark _ rfl, rfl⟩, .winds rfl⟩
    · exact ⟨⟨rfl, rfl⟩, .winds rfl⟩

theorem Sequel.quiet {w w' : World} {sprite : String} {frames frames' : List Frame} {going : Bool}
    {purpose : Purpose} {task : Task} (h : w.Sequel sprite frames going purpose w' frames' task) :
    w.Quiet w' := by
  cases h with
  | next | last | looks | goesOn => exact .refl w
  | hushes | cleans => exact ⟨rfl, rfl⟩
  | creates | fails | discards => exact ⟨World.depths_remark _ rfl, rfl⟩

theorem afterReply_quiet (w : World) (sprite : String) (ask : Nat) (answer : String) :
    w.Quiet (w.afterReply sprite ask answer) := by
  unfold afterReply
  split <;> exact ⟨rfl, rfl⟩

end World

theorem Task.fits_of_winds {o : Options} {frames : List Frame} {task : Task}
    (h : task.winds = true) (hf : Frame.onStep frames = true) : task.Fits o frames := by
  cases task with
  | look | resume => first | exact hf | trivial
  | wait wait =>
    cases wait with
    | pause due purpose => cases h
    | reply ask answer => exact hf
  | pause duration purpose =>
    simp only [winds, Bool.and_eq_true, Bool.not_eq_true'] at h
    refine ⟨fun _ => hf, fun ht => ?_⟩
    rw [h.2] at ht
    cases ht
  | _ => cases h

theorem Task.fits_tick {o : Options} {frames : List Frame} {purpose : Purpose}
    (h : purpose.isInner = true → Frame.onStep frames = true) :
    (Task.pause (some o.stepDelay) purpose).Fits o frames :=
  ⟨h, fun _ => rfl⟩

theorem Task.fits_outer {o : Options} {frames : List Frame} {purpose : Purpose}
    (h : purpose.isInner = false) : (Task.pause (some o.stepDelay) purpose).Fits o frames := by
  apply fits_tick
  intro hinner
  rw [h] at hinner
  cases hinner

namespace Chain

structure Nested (o : Options) (c : Chain) : Prop where
  frames : Frame.Nested o.maxDepth c.frames
  task : c.task.Fits o c.frames

theorem nested_of_sequel {w w' : World} {c : Chain} {purpose : Purpose} {frames : List Frame}
    {task : Task} {going : Bool} (h : Frame.Nested w.options.maxDepth c.frames)
    (hp : purpose.isInner = true → Frame.onStep c.frames = true)
    (hq : w.Sequel c.sprite c.frames going purpose w' frames task) :
    Nested w.options { c with frames := frames, task := task } := by
  cases hq with
  | next hf =>
    rw [hf] at h
    exact ⟨h.2, h.1⟩
  | last hf =>
    rw [hf] at h
    exact ⟨h.2, trivial⟩
  | looks => exact ⟨h, hp rfl⟩
  | fails => exact ⟨h, fun _ => hp rfl, nofun⟩
  | _ => exact ⟨h, trivial⟩

theorem Nested.step {w : World} {c : Chain} (h : c.Nested w.options) (scripts : Table Script) :
    ∀ d ∈ (c.step scripts w).2, d.Nested w.options := by
  obtain ⟨hn, hfit⟩ := h
  have hs := c.step_transition scripts w
  generalize (c.step scripts w).1 = w', (c.step scripts w).2 = c' at hs ⊢
  have hsome {d : Chain} (hd : d.Nested w.options) : ∀ d' ∈ some d, d'.Nested w.options := by
    rintro d' ⟨⟩
    exact hd
  cases hs with
  | bare | ends => rintro d ⟨⟩
  | first => exact hsome ⟨hn, Nat.zero_le _⟩
  | begins ht hr hp =>
    rw [ht] at hfit
    have he := (World.Effect.of_perform hp).entered.2
    rw [(w.entered_depths ..).2] at he
    refine hsome ?_
    cases he with
    | loop => exact ⟨⟨rfl, hfit, hn⟩, trivial⟩
    | body => exact ⟨⟨hfit, hn⟩, trivial⟩
    | script hd => exact ⟨⟨hfit, hn⟩, hd⟩
    | winds hw => exact ⟨⟨hfit, hn⟩, Task.fits_of_winds hw rfl⟩
  | capped | hollow | finishes => exact hsome ⟨hn, Task.fits_outer rfl⟩
  | enters ht hd => exact hsome ⟨hn, hd⟩
  | leaves ht hf =>
    rw [hf] at hn
    exact hsome ⟨hn.2, trivial⟩
  | misses ht =>
    rw [ht] at hfit
    exact hsome ⟨hn, Task.fits_tick fun _ => hfit⟩
  | waits ht =>
    rw [ht] at hfit
    exact hsome ⟨hn, hfit.1⟩
  | hurries ht hd hq =>
    rw [ht] at hfit
    exact hsome (nested_of_sequel hn hfit.1 hq)
  | wakes ht ho hq =>
    rw [ht] at hfit
    exact hsome (nested_of_sequel hn hfit hq)
  | stays => exact hsome ⟨hn, hfit⟩
  | rounds ht hf =>
    rw [hf] at hn
    exact hsome ⟨hn, trivial⟩
  | passes | again | astray | sees | hears => exact hsome ⟨hn, trivial⟩

/-- The depth of the block that the next step begins, while the run goes on. -/
def begins (c : Chain) : List Nat :=
  match c.task with
  | .block _ _ depth => [depth]
  | _ => []

theorem step_depths (scripts : Table Script) (w : World) (c : Chain) :
    (c.step scripts w).1.options = w.options ∧
      (c.step scripts w).1.depths = w.depths ++ if w.running then c.begins else [] := by
  have hs := c.step_transition scripts w
  generalize (c.step scripts w).1 = w', (c.step scripts w).2 = c' at hs ⊢
  have hquiet {task : Task} {w' : World} (ht : c.task = task) (hw : w.Quiet w')
      (hb : begins { c with task := task } = []) : w'.options = w.options ∧
        w'.depths = w.depths ++ if w.running then c.begins else [] := by
    have hb : c.begins = [] := by simpa only [begins, ht] using hb
    rw [hb, ite_self, List.append_nil]
    exact ⟨hw.options, hw.depths⟩
  cases hs with
  | @begins blocks b depth w' frame task ht hr hp =>
    have hw := (World.Effect.of_perform hp).entered.1
    obtain ⟨hdepths, hoptions⟩ := w.entered_depths c.sprite b depth
    simp only [hr, if_true, begins, ht]
    exact ⟨hw.options.trans hoptions, hw.depths.trans hdepths⟩
  | passes ht hr =>
    rw [hr, if_neg Bool.false_ne_true, List.append_nil]
    exact ⟨rfl, rfl⟩
  | capped ht => exact hquiet ht (w.note_quiet rfl) rfl
  | sees ht | misses ht => exact hquiet ht (w.noteOverruns_quiet ..) rfl
  | hurries ht _ hq => exact hquiet ht hq.quiet rfl
  | wakes ht _ hq => exact hquiet ht hq.quiet rfl
  | hears ht => exact hquiet ht (w.afterReply_quiet ..) rfl
  | first ht | bare ht | enters ht | hollow ht | again ht | leaves ht | astray ht | waits ht
  | stays ht | ends ht | finishes ht | rounds ht => exact hquiet ht (.refl w) rfl

/-- The level at which the chain begins its next block, if it begins one before it waits. -/
def level? (c : Chain) : Option Nat :=
  match c.task with
  | .start .. => some 0
  | .block _ _ depth => some depth
  | .body _ _ depth => some (depth + 1)
  | .round | .resume | .wait (.pause _ .emptyBody) => Frame.loopLevel? c.frames
  | .wait (.pause _ .step) =>
    match c.frames with
    | .step blocks b depth :: outer =>
      match Layout.successor blocks b with
      | some _ => some depth
      | none => Frame.loopLevel? outer
    | frames => Frame.loopLevel? frames
  | _ => none

/-- The level at which the chain begins a block after its next step, if it begins one before it
waits. -/
def nextLevel? (c : Chain) : Option Nat :=
  match c.task with
  | .block _ _ depth => some (depth + 1)
  | _ => c.level?

/-- How many steps the chain takes before it waits, at most, while its run goes on. -/
def toWait (cap : Nat) (c : Chain) : Nat :=
  match c.task, c.frames with
  | .block _ _ depth, _ => 3 * (cap - depth) + 8
  | .body _ _ depth, _ => 3 * (cap - depth) + 6
  | .round, .loop _ _ depth _ _ :: _ => 3 * (cap - depth) + 7
  | .resume, .loop _ _ depth _ _ :: _ => 3 * (cap - depth) + 8
  | .round, _ => 3
  | .resume, _ => 2
  | .look _, _ => 3
  | .pause _ purpose, _ => if purpose.isTick then 1 else if purpose.isTexture then 4 else 3
  | _, _ => 3 * cap + 9

/-- The next step leads to a wait, or nearer to one and to no other level. -/
structure Closer (cap : Nat) (c d : Chain) : Prop where
  level : d.level? = none ∨ d.level? = c.nextLevel?
  shorter : d.toWait cap < c.toWait cap

theorem closer_resume {cap : Nat} {c : Chain} {frames : List Frame}
    (h : Frame.onStep frames = true) (hlt : 2 < c.toWait cap) :
    c.Closer cap { c with frames := frames, task := .resume } := by
  unfold Frame.onStep at h
  split at h
  · exact ⟨.inl rfl, hlt⟩
  · cases h

theorem closer_of_sequel {cap : Nat} {w w' : World} {c : Chain} {purpose : Purpose}
    {frames : List Frame} {task : Task}
    (hq : w.Sequel c.sprite c.frames true purpose w' frames task) (hp : purpose.isInner = true)
    (h : Frame.onStep c.frames = true)
    (hlt : 3 < c.toWait cap ∨
      2 < c.toWait cap ∧ purpose.isTick = false ∧ purpose.isTexture = false) :
    c.Closer cap { c with frames := frames, task := task } := by
  have htwo : 2 < c.toWait cap := by omega
  cases hq with
  | next | last => cases hp
  | looks =>
    rcases hlt with hlt | ⟨-, ht, -⟩
    · exact ⟨.inl rfl, hlt⟩
    · cases ht
  | fails =>
    rcases hlt with hlt | ⟨-, -, ht⟩
    · exact ⟨.inl rfl, hlt⟩
    · cases ht
  | hushes | creates | discards | cleans | goesOn => exact closer_resume h htwo

theorem closer_winds {cap depth : Nat} {c : Chain} {blocks : List Block} {b : Block} {task : Task}
    (ht : c.task = .block blocks b depth) (h : task.winds = true) :
    let d := { c with frames := .step blocks b depth :: c.frames, task := task }
    d.isWaiting = true ∨ c.Closer cap d := by
  intro d
  have hc : 8 ≤ c.toWait cap := by simp [toWait, ht]
  cases task with
  | wait wait => exact .inl rfl
  | look b =>
    refine .inr ⟨.inl rfl, ?_⟩
    change 3 < c.toWait cap
    omega
  | resume => exact .inr (closer_resume rfl (by omega))
  | pause duration purpose =>
    refine .inr ⟨.inl rfl, ?_⟩
    have hd : d.toWait cap ≤ 4 := by
      simp only [d, toWait]
      split
      · omega
      · split <;> omega
    omega
  | _ => cases h

theorem toWait_of_wait {c : Chain} {wait : Wait} (ht : c.task = .wait wait) (cap : Nat) :
    c.toWait cap = 3 * cap + 9 := by
  simp only [toWait, ht]

theorem closer_of_wait {c : Chain} {wait : Wait} (ht : c.task = .wait wait) (cap : Nat)
    {frames : List Frame} (hl : c.level? = Frame.loopLevel? frames) :
    c.Closer cap { c with frames := frames, task := .resume } := by
  have hnext : c.nextLevel? = Frame.loopLevel? frames := by simp only [nextLevel?, ht, hl]
  refine ⟨.inr hnext.symm, ?_⟩
  rw [toWait_of_wait ht]
  cases frames with
  | nil => simp only [toWait]; omega
  | cons f outer => cases f <;> simp only [toWait] <;> omega

theorem level?_of_astray {c : Chain} {due : Option Nat} (ht : c.task = .wait (.pause due .step))
    (hf : Frame.onStep c.frames = false) : c.level? = Frame.loopLevel? c.frames := by
  simp only [level?, ht]
  split
  · rename_i hstep
    rw [hstep] at hf
    cases hf
  · rfl

theorem stepOver_closer {cap : Nat} {w w' : World} {c : Chain} {due : Option Nat}
    {frames : List Frame} {task : Task} (ht : c.task = .wait (.pause due .step))
    (hq : w.Sequel c.sprite c.frames true .step w' frames task) :
    c.Closer cap { c with frames := frames, task := task } := by
  cases hq with
  | next hf hg hs =>
    refine ⟨.inr (by simp only [level?, nextLevel?, ht, hf, hs]), ?_⟩
    rw [toWait_of_wait ht]
    simp only [toWait]
    omega
  | last hf hs => exact closer_of_wait ht cap (by simp only [level?, ht, hf, hs rfl])
  | goesOn hp hf => exact closer_of_wait ht cap (level?_of_astray ht (hf rfl))

theorem Nested.closer {w : World} {c : Chain} (h : c.Nested w.options) (hr : w.running = true)
    (hd : 0 < w.options.stepDelay) (scripts : Table Script) :
    ∀ d ∈ (c.step scripts w).2, d.isWaiting = true ∨ c.Closer w.options.maxDepth d := by
  obtain ⟨hn, hfit⟩ := h
  have hs := c.step_transition scripts w
  generalize (c.step scripts w).1 = w', (c.step scripts w).2 = c' at hs ⊢
  have hsome {d : Chain} (hd : d.isWaiting = true ∨ c.Closer w.options.maxDepth d) :
      ∀ d' ∈ some d, d'.isWaiting = true ∨ c.Closer w.options.maxDepth d' := by
    rintro d' ⟨⟩
    exact hd
  have hlevel {d : Chain} (hl : d.level? = c.nextLevel?)
      (hlt : d.toWait w.options.maxDepth < c.toWait w.options.maxDepth) :
      ∀ d' ∈ some d, d'.isWaiting = true ∨ c.Closer w.options.maxDepth d' :=
    hsome (.inr ⟨.inr hl, hlt⟩)
  cases hs with
  | bare | ends => rintro d ⟨⟩
  | first ht => exact hlevel (by simp only [level?, nextLevel?, ht]) (by simp [toWait, ht])
  | begins ht hr hp =>
    rw [ht] at hfit
    have he := (World.Effect.of_perform hp).entered.2
    rw [(w.entered_depths ..).2] at he
    cases he with
    | loop =>
      exact hlevel (by simp [level?, nextLevel?, ht, Frame.loopLevel?]) (by simp [toWait, ht])
    | body => exact hlevel (by simp only [level?, nextLevel?, ht]) (by simp [toWait, ht])
    | script hlt =>
      refine hlevel (by simp only [level?, nextLevel?, ht]) ?_
      simp only [toWait, ht]
      omega
    | winds hw => exact hsome (closer_winds ht hw)
  | enters ht hlt =>
    refine hlevel (by simp only [level?, nextLevel?, ht]) ?_
    simp only [toWait, ht]
    omega
  | again ht hf =>
    refine hlevel (by simp only [level?, nextLevel?, ht, hf, Frame.loopLevel?]) ?_
    simp only [toWait, ht, hf]
    omega
  | leaves ht hf =>
    rw [hf] at hn
    exact hsome (.inr (closer_resume hn.1 (by simp [toWait, ht, hf])))
  | astray ht hf =>
    have hlevel : Frame.loopLevel? c.frames = none := by
      unfold Frame.loopLevel?
      split
      · exact absurd ‹_› (hf _ _ _ _ _ _)
      · rfl
    exact hsome (.inr ⟨.inl hlevel, by simp [toWait, ht]⟩)
  | rounds ht hf =>
    refine hlevel (by simp only [level?, nextLevel?, ht, hf, Frame.loopLevel?]) ?_
    simp only [toWait, ht, hf]
    omega
  | finishes ht hf => exact hsome (.inr ⟨.inl rfl, by simp [toWait, ht, hf, Purpose.isTick]⟩)
  | capped ht | hollow ht | misses ht =>
    exact hsome (.inr ⟨.inl rfl, by simp [toWait, ht, Purpose.isTick]⟩)
  | sees ht =>
    rw [ht] at hfit
    exact hsome (.inr (closer_resume hfit (by simp [toWait, ht])))
  | hears ht =>
    rw [ht] at hfit
    exact hsome (.inr (closer_resume hfit (by simp [toWait, ht])))
  | waits => exact hsome (.inl rfl)
  | stays ht => exact hsome (.inl (by simp only [isWaiting, ht]))
  | @hurries duration purpose _ _ _ ht hzero hq =>
    rw [ht] at hfit
    rw [hr] at hq
    -- A pause that is over at once is none between two blocks, which would last.
    have htick : purpose.isTick = false := by
      by_contra hp
      have hlasts := hfit.2 (by simpa using hp)
      rw [hzero hr, Option.some.injEq] at hlasts
      omega
    have hinner : purpose.isInner = true := by
      cases purpose with
      | step | emptyBody => cases htick
      | _ => rfl
    refine hsome (.inr (closer_of_sequel hq hinner (hfit.1 hinner) ?_))
    simp only [toWait, ht, htick]
    cases purpose.isTexture with
    | true => exact .inl (by simp)
    | false => exact .inr (by simp)
  | @wakes due purpose _ _ _ ht ho hq =>
    rw [ht] at hfit
    rw [hr] at hq
    refine hsome (.inr ?_)
    cases hp : purpose.isInner with
    | true =>
      refine closer_of_sequel hq hp (hfit hp) (.inl ?_)
      rw [toWait_of_wait ht]
      omega
    | false =>
      cases purpose with
      | step => exact stepOver_closer ht hq
      | emptyBody =>
        cases hq with
        | goesOn => exact closer_of_wait ht _ (by simp only [level?, ht])
      | _ => cases hp
  | passes ht hstopped =>
    rw [hr] at hstopped
    cases hstopped

theorem toWait_pos (cap : Nat) (c : Chain) : 0 < c.toWait cap := by
  unfold toWait
  split
  any_goals omega
  split
  · omega
  · split <;> omega

/-- What a resumption begins: `n` blocks from level `first` on, each one level below the one
before it and none below the cap. -/
structure Descends (w w' : World) (c : Chain) (first n : Nat) : Prop where
  depths : w'.depths = w.depths ++ List.range' first n
  capped : first + n ≤ w.options.maxDepth + 1
  level : n ≠ 0 → c.level? = some first

theorem descends_after_step {w w₁ w' : World} {c : Chain} (first n : Nat) (h : c.Nested w.options)
    (hw₁ : w₁.depths = w.depths ++ c.begins) (hw' : w'.depths = w₁.depths ++ List.range' first n)
    (hcap : first + n ≤ w.options.maxDepth + 1) (hnext : n ≠ 0 → c.nextLevel? = some first) :
    ∃ first n, c.Descends w w' first n := by
  cases ht : c.task with
  | block blocks b depth =>
    -- The step begins a block, and what follows begins one level below it.
    have hdepth : depth ≤ w.options.maxDepth := by
      have hfit := h.task
      rw [ht] at hfit
      exact hfit
    have hb : c.begins = [depth] := by simp only [begins, ht]
    have hfirst : n ≠ 0 → first = depth + 1 := by
      intro hn
      simpa [nextLevel?, ht] using (hnext hn).symm
    have hrange : depth :: List.range' first n = List.range' depth (n + 1) := by
      rw [List.range'_succ]
      by_cases hn : n = 0
      · simp [hn]
      · rw [hfirst hn]
    refine ⟨depth, n + 1, ?_, ?_, fun _ => by simp only [level?, ht]⟩
    · rw [hw', hw₁, hb, List.append_assoc, List.singleton_append, hrange]
    · by_cases hn : n = 0
      · omega
      · have := hfirst hn
        omega
  | _ =>
    have hb : c.begins = [] := by simp only [begins, ht]
    refine ⟨first, n, ?_, hcap, fun hn => ?_⟩
    · rw [hw', hw₁, hb, List.append_nil]
    · rw [← hnext hn]
      simp only [nextLevel?, ht]

/-- A resumption goes down level by level, and comes to a wait or to the end of the chain if it
takes enough steps. -/
theorem Nested.run {w : World} {c : Chain} (h : c.Nested w.options) (hr : w.running = true)
    (hd : 0 < w.options.stepDelay) (scripts : Table Script) (fuel : Nat) :
    (∃ first n, c.Descends w (c.run scripts fuel w).1 first n) ∧
      (c.toWait w.options.maxDepth ≤ fuel →
        ∀ d ∈ (c.run scripts fuel w).2, d.isWaiting = true) := by
  induction fuel generalizing w c with
  | zero =>
    refine ⟨⟨0, 0, by simp [Chain.run], by omega, fun hn => absurd rfl hn⟩, fun hle => ?_⟩
    have := c.toWait_pos w.options.maxDepth
    omega
  | succ fuel ih =>
    obtain ⟨ho, hw⟩ := c.step_depths scripts w
    have hnest := h.step scripts
    have hclose := h.closer hr hd scripts
    have hr' := (c.step_same_run scripts w).2.1.trans hr
    rw [if_pos hr] at hw
    rw [Chain.run]
    generalize c.step scripts w = p at ho hw hnest hclose hr'
    obtain ⟨w', c'⟩ := p
    simp only at ho hw hnest hclose hr'
    have hstop : ∃ first n, c.Descends w w' first n :=
      descends_after_step 0 0 h hw (by simp) (by omega) (fun hn => absurd rfl hn)
    cases c' with
    | none => exact ⟨hstop, by simp⟩
    | some d =>
      cases hwait : d.isWaiting with
      | true =>
        simp only [hwait, if_true]
        refine ⟨hstop, fun _ => ?_⟩
        rintro d' ⟨⟩
        exact hwait
      | false =>
        have hcloser := (hclose d rfl).resolve_left (by simp [hwait])
        obtain ⟨⟨first, n, hdown⟩, hend⟩ := ih (ho ▸ hnest d rfl) hr' (ho ▸ hd)
        simp only [hwait, Bool.false_eq_true, if_false]
        refine ⟨descends_after_step first n h hw hdown.depths (ho ▸ hdown.capped) fun hn => ?_,
          fun hle => hend ?_⟩
        · have hlevel := hdown.level hn
          rcases hcloser.level with hl | hl
          · rw [hl] at hlevel
            cases hlevel
          · exact hl ▸ hlevel
        · have := hcloser.shorter
          rw [ho]
          omega

theorem Nested.run_capped {w : World} {c : Chain} (h : c.Nested w.options) (scripts : Table Script)
    (fuel : Nat) :
    (c.run scripts fuel w).1.options = w.options ∧
      (∀ d ∈ (c.run scripts fuel w).2, d.Nested w.options) ∧
      ∀ n ∈ (c.run scripts fuel w).1.depths, n ∈ w.depths ∨ n ≤ w.options.maxDepth := by
  refine run_induction (P := fun v d => v.options = w.options ∧ (∀ d' ∈ d, d'.Nested w.options) ∧
    ∀ n ∈ v.depths, n ∈ w.depths ∨ n ≤ w.options.maxDepth) ?_ ⟨rfl, ?_, fun n => .inl⟩ fuel
  · rintro v d ⟨ho, hd, hv⟩
    have hd' : d.Nested v.options := ho ▸ hd d rfl
    obtain ⟨ho', hdepths⟩ := d.step_depths scripts v
    refine ⟨ho'.trans ho, ho ▸ hd'.step scripts, fun n hn => ?_⟩
    rw [hdepths, List.mem_append] at hn
    rcases hn with hn | hn
    · exact hv n hn
    · -- Only a block begins, and its level fits.
      right
      have hbegin : n ∈ d.begins := by
        split at hn
        · exact hn
        · cases hn
      unfold begins at hbegin
      split at hbegin
      · rename_i blocks b depth ht
        have hfit := hd'.task
        rw [ht, ho] at hfit
        rw [List.mem_singleton.mp hbegin]
        exact hfit
      · cases hbegin
  · rintro d ⟨⟩
    exact h

theorem run_stopped_depths {w : World} {c : Chain} (hr : w.running = false) (scripts : Table Script)
    (fuel : Nat) :
    (c.run scripts fuel w).1.running = false ∧ (c.run scripts fuel w).1.depths = w.depths := by
  refine run_induction (P := fun v _ => v.running = false ∧ v.depths = w.depths) ?_ ⟨hr, rfl⟩ fuel
  rintro v d ⟨hv, hdepths⟩
  refine ⟨(d.step_same_run scripts v).2.1.trans hv, ?_⟩
  rw [(d.step_depths scripts v).2, hv, if_neg Bool.false_ne_true, List.append_nil, hdepths]

theorem Nested.receive {o : Options} {c : Chain} (h : c.Nested o) (ask : Nat) (text : String) :
    (c.receive ask text).Nested o := by
  rcases c.receive_cases ask text with he | ⟨ht, he⟩
  · rw [he]
    exact h
  · rw [he]
    have hfit := h.task
    rw [ht] at hfit
    exact ⟨h.frames, hfit⟩

theorem Nested.silenced {o : Options} {c : Chain} (h : c.Nested o) (asks : List Nat) :
    (c.silenced asks).Nested o := by
  induction asks generalizing c with
  | nil => exact h
  | cons ask asks ih => exact ih (h.receive ask "")

theorem nested_of_mem_ofHats {o : Options} {last : Nat} {hats : List (String × Script × Block)}
    {c : Chain} (h : c ∈ ofHats last hats) : c.Nested o := by
  obtain ⟨hf, blocks, hat, ht⟩ := start_of_mem_ofHats h
  refine ⟨?_, ?_⟩
  · rw [hf]
    trivial
  · rw [ht]
    trivial

end Chain

theorem World.halted_quiet (w : World) : w.Quiet w.halted := by
  let bare : World := { w with running := false, asks := [] }.mapStage fun s =>
    { s.clearSpeech with prompts := [] }
  have hbare : w.Quiet bare := ⟨rfl, rfl⟩
  exact hbare.trans bare.stopSounds_quiet

theorem World.withStarts_quiet (w : World) (hats : List (String × Script × Block)) :
    w.Quiet (w.withStarts hats) := by
  refine ⟨?_, rfl⟩
  simp only [withStarts, depths]
  generalize w.log = log
  induction hats generalizing log with
  | nil => rfl
  | cons hat hats ih =>
    rw [List.foldl_cons, ih]
    simp [Record.depth?]

namespace Machine

theorem host_depths {m m' : Machine} {e : Event} (he : e.isHost = true) (h : m.next? e = some m') :
    m'.world.options = m.world.options ∧ (m'.world.depths = m.world.depths ∨ m'.world.depths = []) := by
  cases e with
  | edit e =>
    simp only [next?] at h
    split at h
    · obtain ⟨p, -, rfl⟩ := Option.map_eq_some_iff.mp h
      exact ⟨rfl, .inl rfl⟩
    · cases h
  | change sprite f =>
    obtain ⟨p, -, rfl⟩ := Option.map_eq_some_iff.mp h
    exact ⟨rfl, .inl rfl⟩
  | rewind =>
    simp only [next?] at h
    split at h
    · cases h
      exact ⟨rfl, .inr rfl⟩
    · cases h
  | obey c =>
    cases h
    cases c with
    | click | stop => cases he
    | flag =>
      simp only [obey, flag, start]
      split
      · split
        · exact ⟨rfl, .inl (World.depths_remark _ rfl)⟩
        · exact ⟨rfl, .inl (World.depths_remark _ rfl)⟩
      · exact ⟨rfl, .inl rfl⟩
    | answer text =>
      simp only [obey, answer]
      split <;> exact ⟨rfl, .inl rfl⟩
    | editSprite sprite edit =>
      simp only [obey]
      split <;> exact ⟨rfl, .inl rfl⟩
    | _ => exact ⟨rfl, .inl rfl⟩
  | _ => cases he

theorem Outcome.nested {m m' : Machine} {e : Event} (h : Outcome m e m') (_ : m.Tidy)
    (hn : ∀ c ∈ m.chains, c.Nested m.world.options) :
    ∀ c ∈ m'.chains, c.Nested m'.world.options := by
  have hspawn {R₁ R₂ : List Run} {r r' : Run} {last : Nat} {hats : List (String × Script × Block)}
      (hr : m.runs = R₁ ++ r :: R₂) (hc : r'.chains = r.chains) :
      ∀ c ∈ (R₁ ++ r'.withHats last hats :: R₂).flatMap (·.chains), c.Nested m.world.options := by
    intro c hmem
    rw [(chains_withHats hc).mem_iff, List.mem_append, ← hr] at hmem
    rcases hmem with hmem | hmem
    · exact Chain.nested_of_mem_ofHats hmem
    · exact hn c hmem
  cases h with
  | host | tick | wakes | rests => exact hn
  | join hs =>
    simp only [chains, mapRuns]
    rw [chains_taking]
    exact hn
  | @opens c t h =>
    have hc : (m.opened t).chains = m.chains := by simp [chains, opened, newRun]
    rw [hc]
    exact hn
  | stop =>
    simp only [chains, mapWorld, mapRuns]
    rw [chains_map fun r => rfl, (World.halted_quiet _).options]
    simp only [List.forall_mem_map]
    exact fun c hc => (hn c hc).silenced m.world.asks
  | @answer text ask rest h =>
    simp only [chains, mapWorld, mapRuns]
    rw [chains_map fun r => rfl]
    simp only [List.forall_mem_map]
    exact fun c hc => (hn c hc).receive ask text
  | begins hr hp hw => exact hspawn hr rfl
  | handles hr hp hh => exact hspawn hr rfl
  | @resumes R₁ R₂ r l₁ l₂ c c' w' fuel hr hl hc hrun =>
    obtain ⟨rest, hbefore, hafter⟩ := chains_putBack R₁ R₂ hl
    have hall : ∀ d ∈ c :: rest, d.Nested m.world.options := fun d hd =>
      hn d (by rw [chains, hr]; exact hbefore.mem_iff.mpr hd)
    obtain ⟨ho, hnest, -⟩ := (hall c List.mem_cons_self).run_capped r.scripts fuel
    rw [hrun] at ho hnest
    simp only [chains]
    rw [chains_taking]
    intro d hd
    rw [(hafter c').mem_iff, List.mem_append, Option.mem_toList] at hd
    refine (show w'.options = m.world.options from ho) ▸ ?_
    rcases hd with hd | hd
    · exact hnest d hd
    · exact hall d (List.mem_cons_of_mem _ hd)
  | @finishes R₁ R₂ r hr ho =>
    simp only [chains]
    rw [chains_map fun r => rfl]
    simp only [List.forall_mem_map]
    intro c hc
    have hoptions : ∀ w : World, w.halted.options = w.options := fun w => w.halted_quiet.options
    refine Chain.Nested.silenced ?_ m.world.asks
    simp only [World.note, hoptions]
    refine hn c ?_
    simp only [chains, hr, List.flatMap_append, List.flatMap_cons, List.mem_append] at hc ⊢
    tauto

theorem Reachable.nested {m : Machine} (h : m.Reachable) :
    ∀ c ∈ m.chains, c.Nested m.world.options :=
  h.invariant (P := fun w cs => ∀ c ∈ cs, c.Nested w.options) (by simp) Outcome.nested

theorem Outcome.capped {m m' : Machine} {e : Event} (h : Outcome m e m') (he : e.isHost = false)
    (hn : ∀ c ∈ m.chains, c.Nested m.world.options) :
    m'.world.options = m.world.options ∧
      ∀ n ∈ m'.world.depths, n ∈ m.world.depths ∨ n ≤ m.world.options.maxDepth := by
  have hquiet {w : World} (hw : m.world.Quiet w) : w.options = m.world.options ∧
      ∀ n ∈ w.depths, n ∈ m.world.depths ∨ n ≤ m.world.options.maxDepth :=
    ⟨hw.options, fun n hmem => .inl (hw.depths ▸ hmem)⟩
  cases h with
  | host hh =>
    rw [hh] at he
    cases he
  | tick | wakes | rests | join | answer => exact hquiet ⟨rfl, rfl⟩
  | opens h => exact hquiet ⟨World.depths_remark _ rfl, rfl⟩
  | stop =>
    have hnote : m.world.Quiet ({ m.world with state := m.world.state.stop }.note .stopRequested) :=
      ⟨World.depths_remark _ rfl, rfl⟩
    exact hquiet (hnote.trans (World.halted_quiet _))
  | begins hr hp hw => exact hquiet (m.world.withStarts_quiet _)
  | handles hr hp hh => exact hquiet (m.world.withStarts_quiet _)
  | @resumes R₁ R₂ r l₁ l₂ c c' w' fuel hr hl hc hrun =>
    have hmem : c ∈ m.chains := by simp [chains, hr, hl]
    obtain ⟨ho, -, hdepths⟩ := (hn c hmem).run_capped r.scripts fuel
    rw [hrun] at ho hdepths
    exact ⟨ho, hdepths⟩
  | finishes hr ho =>
    let left : World := { m.world with state := m.world.state.finish, sender := none }
    have hleft : m.world.Quiet left := ⟨rfl, rfl⟩
    exact hquiet ((hleft.trans left.halted_quiet).trans (World.note_quiet _ rfl))

theorem Reachable.capped {m : Machine} (h : m.Reachable) :
    ∀ n ∈ m.world.depths, n ≤ m.world.options.maxDepth := by
  obtain ⟨options, services, es, h⟩ := h
  refine after_induction (P := fun _ m => ∀ n ∈ m.world.depths, n ≤ m.world.options.maxDepth)
    (by simp [create, World.depths]) ?_ h
  intro es m e m' hb hcap he
  have hm : m.Reachable := ⟨options, services, es, hb⟩
  cases hh : e.isHost with
  | true =>
    obtain ⟨ho, hd⟩ := host_depths hh he
    rw [ho]
    rcases hd with hd | hd
    · rw [hd]
      exact hcap
    · rw [hd]
      simp
  | false =>
    have hn := hm.nested
    rw [← chains_asleep] at hn
    obtain ⟨ho, hd⟩ := (next?_outcome hm.tidy he).capped hh hn
    have ho : m'.world.options = m.world.options := ho
    rw [ho]
    intro n hmem
    exact (hd n hmem).elim (hcap n) id

/-- A resumption that is taken to its end, in a run that goes on or not. -/
theorem run_descends {m : Machine} (h : m.Reachable) (hd : 0 < m.world.options.stepDelay)
    {c : Chain} (hc : c ∈ m.chains) (scripts : Table Script) :
    ∃ steps, ∀ fuel,
      (∃ first n, (c.run scripts fuel m.world).1.depths = m.world.depths ++ List.range' first n ∧
        first + n ≤ m.world.options.maxDepth + 1) ∧
      (steps ≤ fuel → ∀ d ∈ (c.run scripts fuel m.world).2, d.isWaiting = true) := by
  cases hr : m.world.running with
  | true =>
    refine ⟨c.toWait m.world.options.maxDepth, fun fuel => ?_⟩
    obtain ⟨⟨first, n, hdown⟩, hwait⟩ := (h.nested c hc).run hr hd scripts fuel
    exact ⟨⟨first, n, hdown.depths, hdown.capped⟩, hwait⟩
  | false =>
    have hs : c.Stopped m.world := stopped_of_mem hr h.kept h.accounted hc
    refine ⟨c.toGo, fun fuel => ⟨⟨0, 0, ?_, by omega⟩, fun hle d hd => ?_⟩⟩
    · rw [List.range'_zero, List.append_nil]
      exact (Chain.run_stopped_depths hr scripts fuel).2
    · rw [(hs.run scripts fuel).2 hle] at hd
      cases hd

/-- No block ever begins below the cap. One resumption begins blocks one level below each other,
at most one for each level, and then the chain waits or has ended. -/
theorem resumption_nests {m : Machine} (h : m.Reachable) (hd : 0 < m.world.options.stepDelay) :
    (∀ n ∈ m.world.depths, n ≤ m.world.options.maxDepth) ∧
      ∀ call id, ∃ steps, ∀ fuel,
        let m' := (m.resumeChain fuel call id).1
        (∃ first n, m'.world.depths = m.world.depths ++ List.range' first n ∧
          first + n ≤ m.world.options.maxDepth + 1) ∧
        (steps ≤ fuel → ∀ c ∈ m'.chain? call id, c.isWaiting = true) := by
  refine ⟨h.capped, fun call id => ?_⟩
  by_cases hidle : ∀ c ∈ m.chain? call id, c.canResume m.world = false
  · -- Nothing is resumed: the chain has ended before, or it goes on waiting.
    refine ⟨0, fun fuel => ?_⟩
    have he := resumeChain_idle h.tidy hidle fuel
    refine ⟨⟨0, 0, ?_, by omega⟩, fun _ c hc => ?_⟩
    · rw [List.range'_zero, List.append_nil]
      exact congrArg (·.world.depths) he
    · rw [← chain?_asleep, he, chain?_asleep] at hc
      have hres := hidle c hc
      cases ht : c.task with
      | wait wait => rw [Chain.isWaiting, ht]
      | _ =>
        rw [Chain.canResume, ht] at hres
        cases hres
  · push Not at hidle
    obtain ⟨c, hfound, hres⟩ := hidle
    obtain ⟨scripts, hrun⟩ := resumeChain_chain? h.tidy hfound (by simpa using hres)
    obtain ⟨-, r, hr, -, hmem⟩ := (chain?_eq_some_iff h.tidy).mp hfound
    have hc : c ∈ m.chains := List.mem_flatMap.mpr ⟨r, hr, hmem⟩
    obtain ⟨steps, hsteps⟩ := run_descends h hd hc scripts
    refine ⟨steps, fun fuel => ?_⟩
    obtain ⟨hworld, hchain⟩ := hrun fuel
    simp only [hworld, hchain]
    exact hsteps fuel

def runsScript (id : String) (p : Point) : Block :=
  ⟨id, .runScript, p, [("name", .literal (.text "script1"))]⟩

def endless : Script :=
  ⟨[.create "a" .whenFlagClicked ⟨0, 0⟩, runsScript "b" ⟨0, 40⟩,
    .create "c" .defineScript ⟨300, 0⟩, runsScript "d" ⟨320, 36⟩], 4⟩

theorem resumption_nests_endless :
    ∃ m : Machine, m.Reachable ∧ 0 < m.world.options.stepDelay ∧ m.world.options.maxDepth = 3 ∧
      (m.resumeChain 20 0 1).1.world.depths = [0, 1, 2, 3] ∧
      ∃ steps, ∀ fuel, steps ≤ fuel →
        ∀ c ∈ (m.resumeChain fuel 0 1).1.chain? 0 1, c.isWaiting = true := by
  let es : List Event :=
    [.edit (.addSprite "🐱"), .edit (.editScript "sprite-1" fun _ => .ok (endless, ())),
      .obey .flag, .advance 50, .beginRun 0]
  have he : ((create .empty { maxDepth := 3 } {}).after es).map (fun m =>
      (m.world.options.stepDelay, m.world.options.maxDepth,
        (m.resumeChain 20 0 1).1.world.depths)) = some (50, 3, [0, 1, 2, 3]) := by
    decide +kernel
  obtain ⟨m, hm, hw⟩ := Option.map_eq_some_iff.mp he
  simp only [Prod.mk.injEq] at hw
  have hr : m.Reachable := ⟨_, _, es, hm⟩
  have hd : 0 < m.world.options.stepDelay := by omega
  obtain ⟨steps, hsteps⟩ := (resumption_nests hr hd).2 0 1
  exact ⟨m, hr, hd, hw.2.1, hw.2.2, steps, fun fuel => (hsteps fuel).2⟩

end Machine

end BlockScript

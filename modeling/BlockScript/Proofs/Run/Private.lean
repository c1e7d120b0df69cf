import BlockScript.Proofs.Expression.Sight
import BlockScript.Proofs.Layout.Order
import BlockScript.Proofs.Run.Answer
import BlockScript.Proofs.Run.Own
import BlockScript.Proofs.Stage.Frozen

/-! Private blocks. They look at nothing but their own sprite, the host input and the clock, and
they change nothing but their own sprite. So a chain of private blocks takes the same step in any
two worlds that agree on these. -/

namespace BlockScript

/-- The reporters that look beyond the sprite and the input. -/
def sharing : List BlockKind :=
  [.readVariable, .answer, .pickRandom]

def BlockKind.isPrivate (kind : BlockKind) : Bool :=
  kind == .whenFlagClicked || Category.motion.blocks.contains kind ||
    Category.looks.blocks.contains kind ||
    [.changeVolume, .setVolume, .penDown, .penUp, .setPenColor, .setPenSize, .wait, .waitUntil,
      .repeatTimes, .ifThen].contains kind

def Block.isPrivate (b : Block) : Bool :=
  b.kind.isPrivate && (b.kind != .goTo || b.literalText? "target" == some "_mouse_") &&
    allAvoid sharing b.params

theorem Block.isPrivate_iff {b : Block} : b.isPrivate = true ↔
    b.kind.isPrivate = true ∧ (b.kind = .goTo → b.literalText? "target" = some "_mouse_") ∧
      ∀ p ∈ b.params, p.2.avoids sharing = true := by
  rw [isPrivate, Bool.and_eq_true, Bool.and_eq_true, allAvoid_iff, and_assoc]
  by_cases h : b.kind = .goTo <;> simp [h]

def Purpose.Private : Purpose → Prop
  | .step | .emptyBody | .speech | .delay => True
  | .condition b => b.isPrivate = true
  | _ => False

def Task.Private : Task → Prop
  | .start blocks _ | .body blocks _ _ => ∀ b ∈ blocks, b.isPrivate = true
  | .block blocks b _ => (∀ b ∈ blocks, b.isPrivate = true) ∧ b.isPrivate = true
  | .look b => b.isPrivate = true
  | .pause _ purpose | .wait (.pause _ purpose) => purpose.Private
  | .wait (.reply ..) => False
  | .round | .resume => True

def Task.isWait : Task → Bool
  | .wait _ => true
  | _ => false

def Frame.blocks : Frame → List Block
  | .step blocks .. | .loop blocks .. => blocks

structure Chain.Private (c : Chain) : Prop where
  frames : ∀ f ∈ c.frames, ∀ b ∈ f.blocks, b.isPrivate = true
  task : c.task.Private

namespace World

/-- The two worlds look the same to private blocks on `sprite`, except for the time. -/
structure Alike (sprite : String) (w w' : World) : Prop where
  sprite : w'.stage.sprite? sprite = w.stage.sprite? sprite
  input : w'.stage.input = w.stage.input
  options : w'.options = w.options

theorem Alike.refl (sprite : String) (w : World) : w.Alike sprite w :=
  ⟨rfl, rfl, rfl⟩

/-- The world after a change of a sprite, if any, with other dice and another log. -/
def moved (w : World) (sprite : String) (change : Option (Sprite → Sprite)) (dice : Dice)
    (log : Array (Nat × Record)) : World :=
  { w with
    project := { w.project with stage := change.elim w.stage (w.stage.updateSprite sprite) }
    dice := dice
    log := log }

theorem moved_sprite? (w : World) (sprite other : String) (change : Option (Sprite → Sprite))
    (dice : Dice) (log : Array (Nat × Record)) :
    (w.moved sprite change dice log).stage.sprite? other =
      if other = sprite then (change.elim id fun f => Option.map fun s => (f s).normalize)
        (w.stage.sprite? sprite) else w.stage.sprite? other := by
  cases change with
  | none =>
    by_cases h : other = sprite
    · rw [if_pos h, h]
      rfl
    · rw [if_neg h]
      rfl
  | some f => exact w.stage.updateSprite_sprite? sprite other f

theorem moved_input (w : World) (sprite : String) (change : Option (Sprite → Sprite)) (dice : Dice)
    (log : Array (Nat × Record)) :
    (w.moved sprite change dice log).stage.input = w.stage.input := by
  cases change with
  | none => rfl
  | some f => exact (w.stage.updateSprite_spared sprite f).input

/-- A chain of another sprite moves without being seen. -/
theorem Alike.moved_other {sprite other : String} {w w' : World} (h : w.Alike sprite w')
    (ho : other ≠ sprite) (change : Option (Sprite → Sprite)) (dice : Dice)
    (log : Array (Nat × Record)) : (w.moved other change dice log).Alike sprite w' := by
  refine ⟨?_, ?_, h.options⟩
  · rw [moved_sprite?, if_neg ho.symm, h.sprite]
  · rw [moved_input, h.input]

theorem Alike.moved {sprite : String} {w w' : World} (h : w.Alike sprite w')
    (change : Option (Sprite → Sprite)) (dice dice' : Dice) (log log' : Array (Nat × Record)) :
    (w.moved sprite change dice log).Alike sprite (w'.moved sprite change dice' log') := by
  refine ⟨?_, ?_, h.options⟩
  · rw [moved_sprite?, moved_sprite?, if_pos rfl, if_pos rfl, h.sprite]
  · rw [moved_input, moved_input, h.input]

theorem Alike.read {sprite : String} {w w' : World} (h : w.Alike sprite w') {b : Block}
    (hb : b.isPrivate = true) : w'.read sprite b = w.read sprite b := by
  have hscene : Scene.Alike sharing (w.scene sprite) (w'.scene sprite) := by
    refine ⟨h.sprite, h.input, fun hshare => ?_, fun hshare => ?_⟩
    · rcases hshare with hshare | hshare <;> exact absurd (by decide) hshare
    · exact absurd (by decide) hshare
  funext name
  rw [World.read, World.read, h.options]
  apply hscene.resolve
  intro p hp
  have hmem : (name, p) ∈ b.params := Table.mem_of_get? hp
  exact (Block.isPrivate_iff.mp hb).2.2 _ hmem

end World

theorem BlockKind.spriteChange?_dice {kind : BlockKind} {arg : String → Value}
    (h : kind = .goTo → (arg "target").toText = "_mouse_") (mouse : Point) (dice dice' : Dice) :
    kind.spriteChange? arg mouse dice' = kind.spriteChange? arg mouse dice := by
  cases kind with
  | goTo => simp [spriteChange?, h rfl]
  | _ => rfl

namespace World

theorem toText_read_goTo (w : World) (sprite : String) {b : Block} (hb : b.isPrivate = true)
    (hk : b.kind = .goTo) : (w.read sprite b "target").toText = "_mouse_" := by
  have htext := (Block.isPrivate_iff.mp hb).2.1 hk
  unfold Block.literalText? at htext
  split at htext
  · rename_i v hv
    rw [read, hv]
    exact Option.some.inj htext
  · cases htext

/-- What private blocks do to a world is one change of their sprite at most, the same one in any
two worlds with the same input. -/
theorem perform_private (w w' : World) {b : Block} (hb : b.isPrivate = true)
    {blocks : List Block} (hblocks : ∀ b ∈ blocks, b.isPrivate = true) {arg : String → Value}
    (hgo : b.kind = .goTo → (arg "target").toText = "_mouse_")
    (hinput : w'.stage.input = w.stage.input) (scripts scripts' : Table Script) (sprite : String)
    (depth : Nat) :
    ∃ change frame task,
      w.perform scripts sprite blocks b depth arg =
        (w.moved sprite change w.dice w.log, frame, task) ∧
      w'.perform scripts' sprite blocks b depth arg =
        (w'.moved sprite change w'.dice w'.log, frame, task) ∧
      (∀ f ∈ frame, f.blocks = blocks) ∧ task.Private ∧ task.isWait = false := by
  have hkind := (Block.isPrivate_iff.mp hb).1
  have hnot {kind : BlockKind} (he : b.kind = kind) (hk : kind.isPrivate = false) : False := by
    rw [he, hk] at hkind
    cases hkind
  unfold perform
  split
  · exact ⟨some _, none, _, rfl, rfl, by simp, trivial, rfl⟩
  · exact ⟨some _, none, _, rfl, rfl, by simp, trivial, rfl⟩
  · exact (hnot ‹_› rfl).elim
  · exact (hnot ‹_› rfl).elim
  · exact (hnot ‹_› rfl).elim
  · exact (hnot ‹_› rfl).elim
  · exact ⟨none, none, _, rfl, rfl, by simp, trivial, rfl⟩
  · exact ⟨none, none, _, rfl, rfl, by simp, hb, rfl⟩
  · exact ⟨none, some _, _, rfl, rfl, by simp [Frame.blocks], trivial, rfl⟩
  · exact (hnot ‹_› rfl).elim
  · by_cases h : (arg "condition").isTruthy = true
    · rw [if_pos h]
      exact ⟨none, none, _, rfl, rfl, by simp, hblocks, rfl⟩
    · rw [if_neg h]
      exact ⟨none, none, _, rfl, rfl, by simp, trivial, rfl⟩
  · exact (hnot ‹_› rfl).elim
  · exact (hnot ‹_› rfl).elim
  · exact (hnot ‹_› rfl).elim
  · exact (hnot ‹_› rfl).elim
  · exact (hnot ‹_› rfl).elim
  · exact (hnot ‹_› rfl).elim
  · rw [hinput, BlockKind.spriteChange?_dice hgo w.stage.input.mouse w.dice w'.dice]
    cases b.kind.spriteChange? arg w.stage.input.mouse w.dice with
    | none => exact ⟨none, none, _, rfl, rfl, by simp, trivial, rfl⟩
    | some change => exact ⟨some change, none, _, rfl, rfl, by simp, trivial, rfl⟩

theorem afterPause_private {purpose : Purpose} (hp : purpose.Private) (w w' : World)
    (sprite : String) {frames : List Frame}
    (hf : ∀ f ∈ frames, ∀ b ∈ f.blocks, b.isPrivate = true) :
    ∃ change rest task,
      w.afterPause sprite frames true purpose =
        (w.moved sprite change w.dice w.log, rest, task) ∧
      w'.afterPause sprite frames true purpose =
        (w'.moved sprite change w'.dice w'.log, rest, task) ∧
      (∀ f ∈ rest, ∀ b ∈ f.blocks, b.isPrivate = true) ∧ task.Private ∧ task.isWait = false := by
  cases purpose with
  | step =>
    cases frames with
    | nil => exact ⟨none, [], .resume, rfl, rfl, hf, trivial, rfl⟩
    | cons f outer =>
      have houter := (List.forall_mem_cons.mp hf).2
      cases f with
      | loop blocks b depth done times => exact ⟨none, _, .resume, rfl, rfl, hf, trivial, rfl⟩
      | step blocks b depth =>
        cases hs : Layout.successor blocks b with
        | none =>
          refine ⟨none, outer, .resume, ?_, ?_, houter, trivial, rfl⟩
          · simp only [afterPause, if_true, hs]
            rfl
          · simp only [afterPause, if_true, hs]
            rfl
        | some next =>
          have hblocks := (List.forall_mem_cons.mp hf).1
          refine ⟨none, outer, .block blocks next depth, ?_, ?_, houter, ⟨hblocks, ?_⟩, rfl⟩
          · simp only [afterPause, if_true, hs]
            rfl
          · simp only [afterPause, if_true, hs]
            rfl
          · exact hblocks next (Layout.near_of_successor hs).1
  | emptyBody => exact ⟨none, frames, .resume, rfl, rfl, hf, trivial, rfl⟩
  | speech => exact ⟨some Sprite.hush, frames, .resume, rfl, rfl, hf, trivial, rfl⟩
  | delay => exact ⟨none, frames, .resume, rfl, rfl, hf, trivial, rfl⟩
  | condition b => exact ⟨none, frames, .look b, rfl, rfl, hf, hp, rfl⟩
  | sound | texture | failure => cases hp

end World

namespace Chain

/-- The steps from `w` and from `w'` make the same change of `sprite`, and leave the same private
chain. If it waits, its time is yet to come. -/
def SameStep (sprite : String) (w w' : World) (p p' : World × Option Chain) : Prop :=
  ∃ change dice log dice' log' next,
    p = (w.moved sprite change dice log, next) ∧ p' = (w'.moved sprite change dice' log', next) ∧
      ∀ d ∈ next, d.Private ∧ ∀ due ∈ d.due?, w.now < due

theorem due?_of_task {c : Chain} (h : c.task.isWait = false) : c.due? = none := by
  unfold due?
  split
  · rename_i ht
    rw [ht] at h
    cases h
  · rfl

theorem SameStep.on {sprite : String} {w w' : World} (d : Chain)
    (hf : ∀ f ∈ d.frames, ∀ b ∈ f.blocks, b.isPrivate = true) (ht : d.task.Private)
    (hw : d.task.isWait = false) (change : Option (Sprite → Sprite)) (dice dice' : Dice)
    (log log' : Array (Nat × Record)) :
    SameStep sprite w w' (w.moved sprite change dice log, some d)
      (w'.moved sprite change dice' log', some d) := by
  refine ⟨change, dice, log, dice', log', some d, rfl, rfl, ?_⟩
  intro e he
  cases he
  refine ⟨⟨hf, ht⟩, ?_⟩
  rw [due?_of_task hw]
  simp

theorem SameStep.still {sprite : String} {w w' : World} {d : Chain}
    (hf : ∀ f ∈ d.frames, ∀ b ∈ f.blocks, b.isPrivate = true) (ht : d.task.Private)
    (hw : d.task.isWait = false) : SameStep sprite w w' (w, some d) (w', some d) :=
  .on d hf ht hw none w.dice w'.dice w.log w'.log

theorem SameStep.ended (sprite : String) (w w' : World) :
    SameStep sprite w w' (w, none) (w', none) :=
  ⟨none, w.dice, w.log, w'.dice, w'.log, none, rfl, rfl, by simp⟩

theorem SameStep.afterPause {c : Chain} (hc : c.Private) {purpose : Purpose} (hp : purpose.Private)
    (w w' : World) :
    SameStep c.sprite w w'
      ((w.afterPause c.sprite c.frames true purpose).1, some { c with
        frames := (w.afterPause c.sprite c.frames true purpose).2.1
        task := (w.afterPause c.sprite c.frames true purpose).2.2 })
      ((w'.afterPause c.sprite c.frames true purpose).1, some { c with
        frames := (w'.afterPause c.sprite c.frames true purpose).2.1
        task := (w'.afterPause c.sprite c.frames true purpose).2.2 }) := by
  obtain ⟨change, rest, task, he, he', hf, ht, hw⟩ :=
    World.afterPause_private hp w w' c.sprite hc.frames
  rw [he, he']
  exact .on { c with frames := rest, task := task } hf ht hw change ..

theorem step_begins {w : World} {c : Chain} {blocks : List Block} {b : Block} {depth : Nat}
    (ht : c.task = .block blocks b depth) (hr : w.running = true) (scripts : Table Script) :
    ∃ dice log, c.step scripts w = c.inside blocks b depth
      (World.perform { w with dice := dice, log := log } scripts c.sprite blocks b depth
        (World.read { w with dice := dice, log := log } c.sprite b)) := by
  obtain ⟨dice, log, he⟩ := w.entered_eq c.sprite b depth
  exact ⟨dice, log, by rw [step_entered ht hr, he]⟩

/-- In worlds that are alike, a private chain takes the same step. -/
theorem step_private {c : Chain} (hc : c.Private) {w w' : World} (h : w.Alike c.sprite w')
    (hr : w.running = true) (hr' : w'.running = true) (hnow : w'.now = w.now)
    (scripts scripts' : Table Script) :
    SameStep c.sprite w w' (c.step scripts w) (c.step scripts' w') := by
  have htask := hc.task
  cases ht : c.task with
  | start blocks hat =>
    rw [ht] at htask
    simp only [step, ht]
    cases hs : Layout.successor blocks hat with
    | none => exact .ended ..
    | some first => exact .still hc.frames ⟨htask, htask first (Layout.near_of_successor hs).1⟩ rfl
  | block blocks b depth =>
    rw [ht] at htask
    obtain ⟨hblocks, hb⟩ := htask
    obtain ⟨dice, log, hs⟩ := step_begins ht hr scripts
    obtain ⟨dice', log', hs'⟩ := step_begins ht hr' scripts'
    have hv : World.Alike c.sprite { w with dice := dice, log := log }
      { w' with dice := dice', log := log' } := ⟨h.sprite, h.input, h.options⟩
    obtain ⟨change, frame, task, hp, hp', hframe, htask, hwait⟩ :=
      World.perform_private { w with dice := dice, log := log }
        { w' with dice := dice', log := log' } hb hblocks
        (World.toText_read_goTo { w with dice := dice, log := log } c.sprite hb) h.input scripts
        scripts' c.sprite depth
    rw [hs, hs', hv.read hb, hp, hp']
    refine .on { c with frames := _, task := task } ?_ htask hwait change _ _ _ _
    intro f hf
    rcases List.mem_append.mp hf with hf | hf
    · rw [hframe f (by simpa using hf)]
      exact hblocks
    · rcases List.mem_cons.mp hf with rfl | hf
      · exact hblocks
      · exact hc.frames f hf
  | body blocks b depth =>
    rw [ht] at htask
    simp only [step, ht, h.options]
    by_cases hd : w.options.maxDepth ≤ depth
    · rw [if_pos hd, if_pos hd]
      exact .on { c with task := .pause (some w.options.stepDelay) .emptyBody } hc.frames trivial
        rfl none ..
    · rw [if_neg hd, if_neg hd]
      cases hs : Layout.firstChild blocks b with
      | none => exact .still hc.frames trivial rfl
      | some first =>
        exact .still hc.frames ⟨htask, htask first (Layout.mem_of_firstChild hs)⟩ rfl
  | round =>
    simp only [step, ht]
    split
    · rename_i blocks b depth done times outer hf
      have hframes := hc.frames
      rw [hf] at hframes
      rw [hr, hr']
      by_cases hd : (true && times.all (done < ·)) = true
      · rw [if_pos hd, if_pos hd]
        exact .still hc.frames (List.forall_mem_cons.mp hframes).1 rfl
      · rw [if_neg hd, if_neg hd]
        exact .still (List.forall_mem_cons.mp hframes).2 trivial rfl
    · exact .still hc.frames trivial rfl
  | look b =>
    rw [ht] at htask
    obtain ⟨log, hlog⟩ := w.noteOverruns_eq c.sprite b ["condition"]
    obtain ⟨log', hlog'⟩ := w'.noteOverruns_eq c.sprite b ["condition"]
    simp only [step, ht, h.read htask, h.options]
    rw [hlog, hlog']
    by_cases hd : (w.read c.sprite b "condition").isTruthy = true
    · rw [if_pos hd, if_pos hd]
      exact .on { c with task := .resume } hc.frames trivial rfl none ..
    · rw [if_neg hd, if_neg hd]
      exact .on { c with task := .pause (some w.options.stepDelay) (.condition b) } hc.frames htask
        rfl none ..
  | pause duration purpose =>
    rw [ht] at htask
    simp only [step, ht, hr, hr', hnow]
    by_cases hd : (true && duration != some 0) = true
    · rw [if_pos hd, if_pos hd]
      refine ⟨none, w.dice, w.log, w'.dice, w'.log, _, rfl, rfl, ?_⟩
      intro d he
      cases he
      refine ⟨⟨hc.frames, htask⟩, ?_⟩
      intro due hdue
      cases duration with
      | none => cases hdue
      | some n =>
        have hn : n ≠ 0 := by simpa using hd
        obtain rfl : w.now + n = due := Option.some.inj hdue
        omega
    · rw [if_neg hd, if_neg hd]
      exact .afterPause hc htask w w'
  | resume =>
    simp only [step, ht]
    split
    · exact .ended ..
    · rw [h.options]
      exact .still hc.frames trivial rfl
    · rename_i blocks b depth done times outer hf
      have hframes := hc.frames
      rw [hf, List.forall_mem_cons] at hframes
      generalize done + 1 = round
      exact .still (List.forall_mem_cons.mpr hframes) trivial rfl
  | wait wait =>
    rw [ht] at htask
    cases wait with
    | reply ask answer => cases htask
    | pause due purpose =>
      have hover : w'.isOver (.pause due purpose) = w.isOver (.pause due purpose) := by
        cases purpose with
        | sound => cases htask
        | _ => simp only [World.isOver, hr, hr', hnow]
      simp only [step, ht, hover]
      by_cases ho : w.isOver (.pause due purpose) = true
      · rw [if_pos ho, if_pos ho, hr, hr']
        exact .afterPause hc htask w w'
      · rw [if_neg ho, if_neg ho]
        refine ⟨none, w.dice, w.log, w'.dice, w'.log, some c, rfl, rfl, ?_⟩
        intro d he
        cases he
        refine ⟨hc, ?_⟩
        intro t hdue
        rw [due?, ht] at hdue
        by_contra hlate
        apply ho
        simp only [Option.mem_def] at hdue
        simp only [World.isOver, hdue, Option.any_some, Bool.or_eq_true, decide_eq_true_eq]
        exact .inl (.inr (by omega))

end Chain

end BlockScript

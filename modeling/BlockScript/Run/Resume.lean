import BlockScript.Run.Execute

/-! Resuming a chain. One step does one task; a resumption takes steps until the chain waits or
ends. -/

namespace BlockScript

namespace World

/-- What follows a pause that ended, where `going` says whether the run still goes on. -/
def afterPause (w : World) (sprite : String) (frames : List Frame) (going : Bool) :
    Purpose → World × List Frame × Task
  | .step =>
    match frames with
    | .step blocks b depth :: outer =>
      if going then
        match Layout.successor blocks b with
        | some next => (w, outer, .block blocks next depth)
        | none => (w, outer, .resume)
      else (w, outer, .resume)
    | _ => (w, frames, .resume)
  | .emptyBody => (w, frames, .resume)
  | .speech => (if going then w.update sprite Sprite.hush else w, frames, .resume)
  | .delay => (w, frames, .resume)
  | .condition b => (w, frames, if going then .look b else .resume)
  | .sound _ => (w, frames, .resume)
  | .texture request =>
    let w := w.mapStage fun s => { s with generating := s.generating - 1 }
    if going then
      match (w.services.generator request).answer with
      | .ok texture =>
        let (stage, id) := w.stage.addObject request.kind request.prompt texture
        ((w.mapStage fun _ => stage).note (.objectCreated request.kind id), frames, .resume)
      | .error e =>
        ((w.note (.textureFailed request.prompt e)).update sprite fun s =>
            { s with speech := some ⟨.say, failureMessage⟩ },
          frames, .pause (some w.options.failureDelay) .failure)
    else (w.note (.textureDiscarded request.prompt), frames, .resume)
  | .failure =>
    (w.update sprite fun s =>
        if (s.speech.map (·.text)) = some failureMessage then s.hush else s,
      frames, .resume)

def afterReply (w : World) (sprite : String) (ask : Nat) (answer : String) : World :=
  if w.running then
    let w := w.mapStage fun s =>
      { s with prompts := s.prompts.filter (·.id != ask) }.setVariable answerName (.text answer)
    w.update sprite Sprite.hush
  else w

def isOver (w : World) : Wait → Bool
  | .pause due purpose =>
    !w.running || due.any (· ≤ w.now) ||
      match purpose with
      | .sound g => g != w.generation
      | _ => false
  | .reply _ answer => answer.isSome

end World

namespace Chain

/-- Whether the chain can go on: it does not wait, or its wait is over. -/
def canResume (w : World) (c : Chain) : Bool :=
  match c.task with
  | .wait wait => w.isOver wait
  | _ => true

/-- Does the task of the chain. The chain has ended when there is none left. -/
def step (scripts : Table Script) (w : World) (c : Chain) : World × Option Chain :=
  match c.task with
  | .start blocks hat =>
    match Layout.successor blocks hat with
    | some first => (w, some { c with task := .block blocks first 0 })
    | none => (w, none)
  | .block blocks b depth =>
    if w.running then
      let w := { w with dice := w.dice.next }.note (.began c.sprite b.kind depth)
      let w := w.noteOverruns c.sprite b b.kind.readAtStart
      let (w', frame, task) :=
        w.perform scripts c.sprite blocks b depth (w.read c.sprite b)
      (w', some { c with frames := frame.toList ++ .step blocks b depth :: c.frames, task := task })
    else (w, some { c with task := .resume })
  | .body blocks b depth =>
    if w.options.maxDepth ≤ depth then
      (w.note (.bodySkipped b.id w.options.maxDepth),
        some { c with task := .pause (some w.options.stepDelay) .emptyBody })
    else match Layout.firstChild blocks b with
      | some first => (w, some { c with task := .block blocks first (depth + 1) })
      | none => (w, some { c with task := .pause (some w.options.stepDelay) .emptyBody })
  | .round =>
    match c.frames with
    | .loop blocks b depth done times :: outer =>
      if w.running && times.all (done < ·) then
        (w, some { c with task := .body blocks b depth })
      else (w, some { c with frames := outer, task := .resume })
    | _ => (w, some { c with task := .resume })
  | .look b =>
    let seen := w.noteOverruns c.sprite b ["condition"]
    if (w.read c.sprite b "condition").isTruthy then (seen, some { c with task := .resume })
    else (seen, some { c with task := .pause (some w.options.stepDelay) (.condition b) })
  | .pause duration purpose =>
    if w.running && duration != some 0 then
      (w, some { c with task := .wait (.pause (duration.map (w.now + ·)) purpose) })
    else
      let (w', frames, task) := w.afterPause c.sprite c.frames w.running purpose
      (w', some { c with frames := frames, task := task })
  | .resume =>
    match c.frames with
    | [] => (w, none)
    | .step .. :: _ => (w, some { c with task := .pause (some w.options.stepDelay) .step })
    | .loop blocks b depth done times :: outer =>
      (w, some { c with frames := .loop blocks b depth (done + 1) times :: outer, task := .round })
  | .wait (.pause due purpose) =>
    if w.isOver (.pause due purpose) then
      let (w', frames, task) := w.afterPause c.sprite c.frames w.running purpose
      (w', some { c with frames := frames, task := task })
    else (w, some c)
  | .wait (.reply ask answer) =>
    match answer with
    | some a => (w.afterReply c.sprite ask a, some { c with task := .resume })
    | none => (w, some c)

/-- Takes at most `fuel` steps, until the chain waits or ends. -/
def run (scripts : Table Script) : Nat → World → Chain → World × Option Chain
  | 0, w, c => (w, some c)
  | fuel + 1, w, c =>
    match c.step scripts w with
    | (w, none) => (w, none)
    | (w, some c) => if c.isWaiting then (w, some c) else run scripts fuel w c

end Chain

end BlockScript

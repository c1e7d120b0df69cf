import BlockScript.Proofs.Run.Outcome

/-! What an event does to the project. Chains, stops and starts only change sprites mildly, add
objects and let sprites fall silent; all else is a sprite added or deleted, a change by hand or a
reset. -/

namespace BlockScript

/-- The sprite that an event changes by hand, and how. -/
def Event.byHand? : Event → Option (String × (Sprite → Sprite))
  | .change id f => some (id, f)
  | .obey (.editSprite id e) => some (id, e.apply)
  | _ => none

namespace Project

/-- The sprites, the objects and the numbers given to them last are as before, and names are
kept. -/
structure Beside (p p' : Project) : Prop where
  keys : p'.scripts.keys = p.scripts.keys
  lastSprite : p'.lastSprite = p.lastSprite
  sprites : p'.stage.sprites = p.stage.sprites
  objects : p'.stage.objects = p.stage.objects
  lastObject : p'.stage.lastObject = p.stage.lastObject
  names : p.stage.KeepsNames p'.stage

inductive Act (p : Project) : Project → Prop
  | aside {p' : Project} (h : p.Beside p') : Act p p'
  | change (id : String) {f : Sprite → Sprite} (hf : Sprite.Mild f) :
    Act p { p with stage := p.stage.updateSprite id f }
  | create (kind : ObjectKind) (prompt texture : String) :
    Act p { p with stage := (p.stage.addObject kind prompt texture).1 }
  | hush : Act p { p with stage := p.stage.clearSpeech }

abbrev Acts : Project → Project → Prop :=
  Relation.ReflTransGen Act

inductive Dealt (p : Project) : Event → Project → Prop
  | adds (costume : String) : Dealt p (.edit (.addSprite costume)) (p.insertSprite costume).1
  | deletes {id : String} {script : Script} (h : p.script? id = some script) :
    Dealt p (.edit (.deleteSprite id))
      { p with
        stage := { p.stage with sprites := p.stage.sprites.erase id }
        scripts := p.scripts.erase id }
  | hand {e : Event} {id : String} {f : Sprite → Sprite} {s : Sprite}
    (he : e.byHand? = some (id, f)) (hs : p.stage.sprite? id = some s) :
    Dealt p e { p with stage := p.stage.updateSprite id f }
  | reset : Dealt p (.obey .resetStage) { p with stage := p.stage.reset }
  | acts {e : Event} {p' : Project}
    (he : ∀ id f, e.byHand? = some (id, f) → p.stage.sprite? id = none) (h : p.Acts p') :
    Dealt p e p'

theorem Acts.dealt {p p' : Project} {e : Event} (h : p.Acts p') (he : e.byHand? = none) :
    p.Dealt e p' := by
  refine .acts (fun id f h => ?_) h
  rw [he] at h
  cases h

theorem Beside.acts {p p' : Project} (h : p.Beside p') : p.Acts p' :=
  .single (.aside h)

theorem edit?_dealt {p p' : Project} {e : Edit} (h : p.edit? e = some p') :
    p.Dealt (.edit e) p' := by
  cases edit?_cases h with
  | adds costume => exact .adds costume
  | deletes hs => exact .deletes hs
  | rewrites hs script' =>
    exact Acts.dealt (Beside.acts ⟨Table.keys_insert hs _, rfl, rfl, rfl, rfl, .refl _⟩) rfl
  | binds vars monitors hn =>
    exact Acts.dealt (Beside.acts ⟨rfl, rfl, rfl, rfl, rfl, hn⟩) rfl
  | enables => exact Acts.dealt (Beside.acts ⟨rfl, rfl, rfl, rfl, rfl, .refl _⟩) rfl

end Project

namespace World

theorem Deed.acts {sprite : String} {w w' : World} (h : Deed sprite w w') :
    w.project.Acts w'.project := by
  cases h with
  | change f hf => exact .single (.change sprite hf)
  | bind name value =>
    exact Project.Beside.acts ⟨rfl, rfl, rfl, rfl, rfl, w.stage.setVariable_keepsNames name value⟩
  | erase => exact Project.Beside.acts ⟨rfl, rfl, rfl, rfl, rfl, .of_eq rfl rfl⟩
  | mute =>
    obtain ⟨log, he⟩ := w.stopSounds_eq
    rw [he]
  | _ => exact .refl

theorem Deeds.acts {sprite : String} {w w' : World} (h : Deeds sprite w w') :
    w.project.Acts w'.project := by
  induction h with
  | refl => exact .refl
  | tail _ hd ih => exact ih.trans hd.acts

theorem settled_acts (w : World) (request : ObjectRequest) :
    w.project.Acts (w.settled request).project := by
  have hless : w.project.Act w.settleTexture.project := .aside ⟨rfl, rfl, rfl, rfl, rfl, .of_eq rfl rfl⟩
  unfold settled
  split
  · exact .tail (.single hless) (.create ..)
  · exact .single hless

theorem halted_acts (w : World) : w.project.Acts w.halted.project := by
  obtain ⟨log, he⟩ := w.halted_eq
  rw [he]
  exact .tail (.single .hush) (.aside ⟨rfl, rfl, rfl, rfl, rfl, .of_eq rfl rfl⟩)

end World

namespace Chain

theorem Stepped.acts {w w' : World} {c : Chain} {c' : Option Chain} (h : c.Stepped w w' c') :
    w.project.Acts w'.project := by
  cases h with
  | plain hc hw h' => exact hw.acts
  | @ask w₁ hc hr hw question frames =>
    let asked : World := { w₁ with asks := w₁.asks ++ [w₁.lastAsk + 1], lastAsk := w₁.lastAsk + 1 }
    have hput : w₁.project.Act (asked.mapStage fun s =>
        { s with prompts := s.prompts ++ [⟨w₁.lastAsk + 1, question, c.sprite⟩] }).project :=
      .aside ⟨rfl, rfl, rfl, rfl, rfl, .of_eq rfl rfl⟩
    exact (hw.acts.tail hput).tail (.change c.sprite (.of_same (fun _ => rfl) fun _ => rfl))
  | @request w₁ hc hw prompt frames =>
    obtain ⟨log, he⟩ := w₁.requestTexture_eq prompt
    rw [he]
    exact hw.acts.tail (.aside ⟨rfl, rfl, rfl, rfl, rfl, .of_eq rfl rfl⟩)
  | await hc => exact .refl
  | stay => exact .refl
  | @settle w' d due request hc hw h' => exact (w.settled_acts request).trans hw.acts
  | @answered ask text hc =>
    unfold World.afterReply
    split
    · have hbind : w.project.Act (w.mapStage fun s =>
          { s with prompts := s.prompts.filter (·.id != ask) }.setVariable answerName
            (.text text)).project :=
        .aside ⟨rfl, rfl, rfl, rfl, rfl, Table.keys_prefix_insert .., List.prefix_rfl⟩
      exact .tail (.single hbind) (.change c.sprite Sprite.hush_mild)
    · exact .refl

theorem run_acts (scripts : Table Script) (fuel : Nat) (w : World) (c : Chain) :
    w.project.Acts (c.run scripts fuel w).1.project := by
  refine run_induction (P := fun v _ => w.project.Acts v.project) ?_ .refl fuel
  exact fun v d h => h.trans (step_cases scripts v d).acts

end Chain

namespace Machine

theorem Outcome.acts {m m' : Machine} {e : Event} (h : Outcome m e m') (he : e.isHost = false) :
    m.world.project.Acts m'.world.project := by
  cases h with
  | host he' hp hc => simp [he] at he'
  | opens h => exact .single .hush
  | stop =>
    exact World.halted_acts ({ m.world with state := m.world.state.stop }.note .stopRequested)
  | answer h => exact Project.Beside.acts ⟨rfl, rfl, rfl, rfl, rfl, .of_eq rfl rfl⟩
  | @resumes R₁ R₂ r l₁ l₂ c c' w' fuel hr hl hc hrun =>
    have hacts := c.run_acts r.scripts fuel m.world
    rw [hrun] at hacts
    exact hacts
  | finishes hr ho =>
    exact World.halted_acts { m.world with state := m.world.state.finish, sender := none }
  | _ => exact .refl

theorem flag_acts {m : Machine} (hm : m.Tidy) :
    m.world.project.Acts (m.flag 0).world.project := by
  by_cases hs : m.world.state = .running
  · have hf : m.flag 0 = (m.mapWorld (·.note (.alreadyRunning .flag))).returnNow (.ok ()) := by
      rw [flag, if_pos hm.attached, start, if_pos hs]
    rw [hf]
    exact .refl
  · have hf : m.starts .flag = some .flag := if_pos ⟨hm.attached, hs⟩
    have hw : (m.flag 0).asleep.world = _ := congrArg world (obey_opens hf)
    change m.world.project.Acts (m.flag 0).asleep.world.project
    rw [hw]
    exact .single .hush

theorem answer_acts (m : Machine) (text : String) :
    m.world.project.Acts (m.answer text).1.world.project := by
  unfold answer
  split
  · exact .refl
  · exact Project.Beside.acts ⟨rfl, rfl, rfl, rfl, rfl, .of_eq rfl rfl⟩

theorem obey_dealt {m : Machine} (hm : m.Tidy) (c : Command) :
    m.world.project.Dealt (.obey c) (m.obey 0 c).1.world.project := by
  cases c with
  | flag => exact (flag_acts hm).dealt rfl
  | click sprite => exact ((obey_outcome hm (.click sprite)).acts rfl).dealt rfl
  | stop => exact ((obey_outcome hm .stop).acts rfl).dealt rfl
  | answer text => exact (m.answer_acts text).dealt rfl
  | editSprite id edit =>
    cases hs : m.world.project.stage.sprite? id with
    | none =>
      have hp : (m.obey 0 (.editSprite id edit)).1 = m := by
        simp only [obey, Project.editSprite, hs]
      rw [hp]
      refine .acts (fun id' f he => ?_) .refl
      cases he
      exact hs
    | some s =>
      have hp : (m.obey 0 (.editSprite id edit)).1.world.project =
          { m.world.project with stage := m.world.project.stage.updateSprite id edit.apply } := by
        simp only [obey, Project.editSprite, hs]
        rfl
      rw [hp]
      exact .hand rfl hs
  | resetStage => exact .reset
  | addObject kind prompt texture =>
    exact Project.Acts.dealt (.single (.create kind prompt texture)) rfl
  | toggleMonitor name =>
    have hn := m.stage.setMonitor_keepsNames name (!(m.stage.monitors.get? name).getD false)
    exact Project.Acts.dealt (Project.Beside.acts ⟨rfl, rfl, rfl, rfl, rfl, hn⟩) rfl
  | setVariable name value =>
    have hn := m.stage.setVariable_keepsNames name value
    exact Project.Acts.dealt (Project.Beside.acts ⟨rfl, rfl, rfl, rfl, rfl, hn⟩) rfl
  | changeVariable name amount =>
    have hn := m.stage.setVariable_keepsNames name
      (.number ((m.stage.valueOf name).toNumber + amount))
    exact Project.Acts.dealt (Project.Beside.acts ⟨rfl, rfl, rfl, rfl, rfl, hn⟩) rfl
  | _ =>
    exact Project.Acts.dealt (Project.Beside.acts ⟨rfl, rfl, rfl, rfl, rfl, .of_eq rfl rfl⟩) rfl

theorem next?_dealt {m m' : Machine} {e : Event} (hm : m.Tidy) (h : m.next? e = some m') :
    m.world.project.Dealt e m'.world.project := by
  cases e with
  | edit e =>
    simp only [next?] at h
    split at h
    · obtain ⟨p, hp, rfl⟩ := Option.map_eq_some_iff.mp h
      exact Project.edit?_dealt hp
    · cases h
  | change id f =>
    obtain ⟨p, hp, rfl⟩ := Option.map_eq_some_iff.mp h
    obtain ⟨s, hs, rfl⟩ := Project.editSprite_cases hp
    exact .hand rfl hs
  | obey c =>
    cases h
    exact obey_dealt hm c
  | rewind =>
    simp only [next?] at h
    split at h
    · cases h
      exact Project.Acts.dealt .refl rfl
    · cases h
  | _ => exact ((next?_outcome hm h).acts rfl).dealt rfl

end Machine

end BlockScript

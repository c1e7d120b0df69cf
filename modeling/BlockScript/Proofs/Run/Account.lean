import BlockScript.Proofs.Run.Outcome

/-! What all chains together keep about the stage: its sprites are in range, and it counts one
texture request for each chain that waits for one. -/

namespace BlockScript

def Chain.holdsTexture (c : Chain) : Bool :=
  match c.task with
  | .pause _ (.texture _) | .wait (.pause _ (.texture _)) => true
  | _ => false

def Chain.request? (c : Chain) : Option ObjectRequest :=
  match c.task with
  | .pause _ (.texture request) | .wait (.pause _ (.texture request)) => some request
  | _ => none

theorem Chain.isSome_request? (c : Chain) : c.request?.isSome = c.holdsTexture := by
  unfold request? holdsTexture
  split <;> rfl

theorem Chain.length_requests (cs : List Chain) :
    (cs.filterMap request?).length = cs.countP holdsTexture := by
  rw [List.length_filterMap_eq_countP]
  exact List.countP_congr fun c _ => by rw [c.isSome_request?]

theorem Chain.request?_of_isPlain {c : Chain} (h : c.task.isPlain = true) : c.request? = none := by
  unfold request?
  split
  · rename_i ht
    rw [ht] at h
    cases h
  · rename_i ht
    rw [ht] at h
    cases h
  · rfl

theorem Chain.request?_of_task {c : Chain} {due : Option Nat} {request : ObjectRequest}
    (h : c.task = .pause due (.texture request) ∨ c.task = .wait (.pause due (.texture request))) :
    c.request? = some request := by
  unfold request?
  rcases h with h | h
  · rw [h]
  · rw [h]

theorem Chain.holdsTexture_of_isPlain {c : Chain} (h : c.task.isPlain = true) :
    c.holdsTexture = false := by
  rw [← isSome_request?, request?_of_isPlain h]
  rfl

theorem Chain.holdsTexture_of_task {c : Chain} {due : Option Nat} {request : ObjectRequest}
    (h : c.task = .pause due (.texture request) ∨ c.task = .wait (.pause due (.texture request))) :
    c.holdsTexture = true := by
  rw [← isSome_request?, request?_of_task h]
  rfl

theorem Chain.request?_receive (ask : Nat) (text : String) (c : Chain) :
    (c.receive ask text).request? = c.request? := by
  rcases c.receive_cases ask text with he | ⟨ht, he⟩
  · rw [he]
  · rw [he]
    simp [request?, ht]

theorem Chain.request?_silenced (asks : List Nat) (c : Chain) :
    (c.silenced asks).request? = c.request? := by
  induction asks generalizing c with
  | nil => rfl
  | cons ask asks ih => exact (ih _).trans (c.request?_receive ask "")

namespace World

structure Accounted (w : World) (cs : List Chain) : Prop where
  textures : w.stage.generating = cs.countP Chain.holdsTexture
  inRange : w.stage.InRange

/-- The number of texture requests and the objects are as before, and sprites stay in range. -/
structure Orderly (w w' : World) : Prop where
  generating : w'.stage.generating = w.stage.generating
  objects : w'.stage.objects = w.stage.objects
  inRange : w.stage.InRange → w'.stage.InRange

theorem Orderly.refl (w : World) : w.Orderly w :=
  ⟨rfl, rfl, fun h => h⟩

theorem Orderly.trans {w w' w'' : World} (h : w.Orderly w') (h' : w'.Orderly w'') : w.Orderly w'' :=
  ⟨h'.generating.trans h.generating, h'.objects.trans h.objects,
    fun hw => h'.inRange (h.inRange hw)⟩

theorem Orderly.of_sprites {w w' : World} (hg : w'.stage.generating = w.stage.generating)
    (ho : w'.stage.objects = w.stage.objects) (hs : w'.stage.sprites = w.stage.sprites) :
    w.Orderly w' :=
  ⟨hg, ho, fun h => by rwa [Stage.InRange, hs]⟩

theorem update_orderly (w : World) (sprite : String) (f : Sprite → Sprite) :
    w.Orderly (w.update sprite f) :=
  ⟨w.stage.updateSprite_generating sprite f, w.stage.updateSprite_objects sprite f,
    fun h => Stage.updateSprite_inRange h sprite f⟩

theorem Deed.orderly {sprite : String} {w w' : World} (h : Deed sprite w w') : w.Orderly w' := by
  cases h with
  | change f => exact w.update_orderly sprite f
  | mute =>
    obtain ⟨log, he⟩ := w.stopSounds_eq
    rw [he]
    exact .of_sprites rfl rfl rfl
  | _ => exact .of_sprites rfl rfl rfl

theorem Deeds.orderly {sprite : String} {w w' : World} (h : Deeds sprite w w') : w.Orderly w' := by
  induction h with
  | refl => exact .refl w
  | tail _ hd ih => exact ih.trans hd.orderly

theorem ask_orderly (w : World) (sprite question : String) :
    w.Orderly (w.ask sprite question).1 := by
  refine Orderly.trans ?_ (update_orderly _ sprite _)
  exact .of_sprites rfl rfl rfl

theorem afterReply_orderly (w : World) (sprite : String) (ask : Nat) (answer : String) :
    w.Orderly (w.afterReply sprite ask answer) := by
  unfold afterReply
  split
  · refine Orderly.trans ?_ (update_orderly _ sprite _)
    exact .of_sprites rfl rfl rfl
  · exact .refl w

theorem settled_generating (w : World) (request : ObjectRequest) :
    (w.settled request).stage.generating = w.stage.generating - 1 := by
  unfold settled
  split <;> rfl

theorem settled_sprites (w : World) (request : ObjectRequest) :
    (w.settled request).stage.sprites = w.stage.sprites := by
  unfold settled
  split <;> rfl

theorem clearSpeech_inRange {s : Stage} (h : s.InRange) : s.clearSpeech.InRange :=
  Table.forall_mapValues fun b hb => (h b hb).hush

end World

theorem Machine.requests_withHats {R₁ R₂ : List Run} {r r' : Run} {last : Nat}
    {hats : List (String × Script × Block)} (h : r'.chains = r.chains) :
    (((R₁ ++ r'.withHats last hats :: R₂).flatMap (·.chains)).filterMap Chain.request?).Perm
      (((R₁ ++ r :: R₂).flatMap (·.chains)).filterMap Chain.request?) := by
  have hnone : (Chain.ofHats last hats).filterMap Chain.request? = [] := by
    rw [List.filterMap_eq_nil_iff]
    intro c hc
    obtain ⟨-, blocks, hat, ht⟩ := Chain.start_of_mem_ofHats hc
    simp [Chain.request?, ht]
  have hp : ((R₁ ++ r'.withHats last hats :: R₂).flatMap (·.chains)).Perm _ := chains_withHats h
  have hr := hp.filterMap Chain.request?
  rwa [List.filterMap_append, hnone, List.nil_append] at hr

namespace Chain

theorem Stepped.counted {w w' : World} {c : Chain} {c' : Option Chain} {cs : List Chain}
    (hs : c.Stepped w w' c') (h : w.stage.generating = (c :: cs).countP holdsTexture) :
    w'.stage.generating = (c'.toList ++ cs).countP holdsTexture := by
  have hkept {d : Chain} (hw : w.Orderly w') (hd : d.holdsTexture = c.holdsTexture) :
      w'.stage.generating = (d :: cs).countP holdsTexture := by
    rw [hw.generating, h]
    simp only [List.countP_cons, hd]
  cases hs with
  | plain hc hw h' =>
    have hc := holdsTexture_of_isPlain hc
    cases c' with
    | none =>
      rw [hw.orderly.generating, h]
      simp [hc]
    | some d => exact hkept hw.orderly ((holdsTexture_of_isPlain (h' d rfl).1).trans hc.symm)
  | @ask w₁ hc hr hw question frames =>
    have hasked := hw.orderly.trans (w₁.ask_orderly c.sprite question)
    exact hkept hasked (holdsTexture_of_isPlain hc).symm
  | @request w₁ hc hw prompt frames =>
    have hc := holdsTexture_of_isPlain hc
    obtain ⟨log, he⟩ := w₁.requestTexture_eq prompt
    have ht : holdsTexture
        { c with frames := frames, task := (w₁.requestTexture prompt).2 } = true :=
      holdsTexture_of_task (.inl rfl)
    have hg : w₁.stage.generating = _ := hw.orderly.generating.trans h
    rw [he]
    simp only [Option.toList_some, List.singleton_append, List.countP_cons, ht, hc] at hg ⊢
    exact congrArg (· + 1) hg
  | await hc => exact hkept (.refl w) (holdsTexture_of_task (.inl hc)).symm
  | stay => exact h
  | @settle w' d due request hc hw h' =>
    have ht := holdsTexture_of_task hc
    have hd := holdsTexture_of_isPlain h'.1
    have hg : w'.stage.generating = w.stage.generating - 1 :=
      hw.orderly.generating.trans (w.settled_generating request)
    simp only [Option.toList_some, List.singleton_append, List.countP_cons, ht, hd] at h ⊢
    simp only [hg, h]
    simp
  | @answered ask text hc =>
    have ht : c.holdsTexture = false := by simp [holdsTexture, hc]
    exact hkept (w.afterReply_orderly c.sprite ask text) ht.symm

theorem Stepped.inRange {w w' : World} {c : Chain} {c' : Option Chain} (hs : c.Stepped w w' c')
    (h : w.stage.InRange) : w'.stage.InRange := by
  cases hs with
  | plain hc hw h' => exact hw.orderly.inRange h
  | @ask w₁ hc hr hw question frames =>
    exact (hw.orderly.trans (w₁.ask_orderly c.sprite question)).inRange h
  | @request w₁ hc hw prompt frames =>
    obtain ⟨log, he⟩ := w₁.requestTexture_eq prompt
    rw [he]
    exact hw.orderly.inRange h
  | await hc => exact h
  | stay => exact h
  | @settle w' d due request hc hw h' =>
    apply hw.orderly.inRange
    rwa [Stage.InRange, w.settled_sprites request]
  | @answered ask text hc => exact (w.afterReply_orderly c.sprite ask text).inRange h

theorem run_counted {w : World} {c : Chain} {cs : List Chain}
    (h : w.stage.generating = (c :: cs).countP holdsTexture) (scripts : Table Script)
    (fuel : Nat) :
    (c.run scripts fuel w).1.stage.generating =
      ((c.run scripts fuel w).2.toList ++ cs).countP holdsTexture := by
  refine run_induction
    (P := fun w c => w.stage.generating = (c.toList ++ cs).countP holdsTexture) ?_ h fuel
  exact fun w c h => (step_cases scripts w c).counted h

theorem run_inRange {w : World} (h : w.stage.InRange) (c : Chain) (scripts : Table Script)
    (fuel : Nat) : (c.run scripts fuel w).1.stage.InRange := by
  refine run_induction (P := fun w _ => w.stage.InRange) ?_ h fuel
  exact fun w c h => (step_cases scripts w c).inRange h

end Chain

namespace Machine

/-- An event resumes a chain, or it leaves texture requests as they are. -/
theorem Outcome.requests {m m' : Machine} {e : Event} (h : Outcome m e m') (hm : m.Tidy) :
    (∃ fuel call id scripts c rest, e = .resumeChain fuel call id ∧
      m.resumable? call id = some (scripts, c) ∧ m.chains.Perm (c :: rest) ∧
      m'.chains.Perm ((c.run scripts fuel m.world).2.toList ++ rest) ∧
      m'.stage = (c.run scripts fuel m.world).1.stage) ∨
    (∀ fuel call id, e = .resumeChain fuel call id → m.resumable? call id = none ∧ m' = m) ∧
      m'.stage.generating = m.stage.generating ∧
      (m'.chains.filterMap Chain.request?).Perm (m.chains.filterMap Chain.request?) := by
  have hsame {cs : List Chain} {g : Chain → Chain} (hg : ∀ c, (g c).request? = c.request?) :
      (cs.map g).filterMap Chain.request? = cs.filterMap Chain.request? := by
    rw [List.filterMap_map]
    exact congrArg (cs.filterMap ·) (funext hg)
  cases h with
  | host he hp hc =>
    refine .inr ⟨?_, hp.generating, .refl _⟩
    rintro fuel call id rfl
    cases he
  | tick h => exact .inr ⟨by rintro _ _ _ ⟨⟩, rfl, .refl _⟩
  | wakes => exact .inr ⟨by rintro _ _ _ ⟨⟩, rfl, .refl _⟩
  | rests h =>
    refine .inr ⟨?_, rfl, .refl _⟩
    rintro _ _ _ ⟨⟩
    exact ⟨h, rfl⟩
  | join hs =>
    refine .inr ⟨by rintro _ _ _ ⟨⟩, rfl, ?_⟩
    simp only [chains, mapRuns]
    rw [chains_taking]
  | @opens c t h =>
    have hc : (m.opened t).chains = m.chains := by simp [chains, opened, newRun]
    refine .inr ⟨by rintro _ _ _ ⟨⟩, rfl, ?_⟩
    rw [hc]
  | stop =>
    refine .inr ⟨by rintro _ _ _ ⟨⟩, ?_, ?_⟩
    · simp only [mapWorld, mapRuns, stage]
      rw [World.halted_stage]
      rfl
    · simp only [chains, mapWorld, mapRuns]
      rw [chains_map fun r => rfl, hsame (Chain.request?_silenced _)]
  | answer h =>
    refine .inr ⟨by rintro _ _ _ ⟨⟩, rfl, ?_⟩
    simp only [chains, mapWorld, mapRuns]
    rw [chains_map fun r => rfl, hsame (Chain.request?_receive _ _)]
  | begins hr hp hw =>
    refine .inr ⟨by rintro _ _ _ ⟨⟩, rfl, ?_⟩
    rw [chains, chains, hr]
    exact requests_withHats rfl
  | handles hr hp hh =>
    refine .inr ⟨by rintro _ _ _ ⟨⟩, rfl, ?_⟩
    rw [chains, chains, hr]
    exact requests_withHats rfl
  | @resumes R₁ R₂ r l₁ l₂ c c' w' fuel hr hl hc hrun =>
    obtain ⟨rest, hbefore, hafter⟩ := chains_putBack R₁ R₂ hl
    refine .inl ⟨fuel, r.call, c.id, r.scripts, c, rest, rfl, resumable?_of_split hm hr hl hc, ?_,
      ?_, ?_⟩
    · rw [chains, hr]
      exact hbefore
    · simp only [chains]
      rw [chains_taking, hrun]
      exact hafter c'
    · rw [hrun]
      rfl
  | @finishes R₁ R₂ r hr ho =>
    have hnil : r.chains = [] := (hm.runs r (by rw [hr]; simp)).chains_of_isOver ho
    have hc : m.chains = (R₁ ++ R₂).flatMap (·.chains) := by
      rw [chains, hr]
      simp [hnil]
    let left : World := { m.world with state := m.world.state.finish, sender := none }
    have hleft : left.halted.stage.generating = left.stage.generating := by
      rw [left.halted_stage]
      rfl
    refine .inr ⟨by rintro _ _ _ ⟨⟩, hleft, ?_⟩
    simp only [chains]
    rw [chains_map fun r => rfl, hsame (Chain.request?_silenced _), ← hc]
    exact .refl _

theorem Outcome.counted {m m' : Machine} {e : Event} (h : Outcome m e m') (hm : m.Tidy)
    (ha : m.stage.generating = m.chains.countP Chain.holdsTexture) :
    m'.stage.generating = m'.chains.countP Chain.holdsTexture := by
  rcases h.requests hm with
    ⟨fuel, call, id, scripts, c, rest, -, -, hbefore, hafter, hstage⟩ | ⟨-, hg, hperm⟩
  · rw [hbefore.countP_eq] at ha
    rw [hstage, hafter.countP_eq]
    exact Chain.run_counted ha scripts fuel
  · rw [hg, ha, ← Chain.length_requests, ← Chain.length_requests, hperm.length_eq]

theorem Outcome.inRange {m m' : Machine} {e : Event} (h : Outcome m e m')
    (ha : m.stage.InRange) : m'.stage.InRange := by
  have hhalt {w : World} (hw : w.stage = m.stage) : w.halted.stage.InRange := by
    rw [World.halted_stage, hw]
    exact World.clearSpeech_inRange ha
  cases h with
  | host he hp hc => exact hp.inRange ha
  | opens h => exact World.clearSpeech_inRange ha
  | stop => exact hhalt rfl
  | @resumes R₁ R₂ r l₁ l₂ c c' w' fuel hr hl hc hrun =>
    have hrun' := c.run_inRange ha r.scripts fuel
    rw [hrun] at hrun'
    exact hrun'
  | @finishes R₁ R₂ r hr ho =>
    exact hhalt (w := { m.world with state := m.world.state.finish, sender := none }) rfl
  | _ => exact ha

theorem Reachable.accounted {m : Machine} (h : m.Reachable) : m.world.Accounted m.chains := by
  refine h.invariant (P := World.Accounted) (fun options services => ⟨rfl, ?_⟩) fun ho hm ha => ?_
  · exact fun b hb => absurd hb List.not_mem_nil
  · exact ⟨ho.counted hm ha.textures, ho.inRange ha.inRange⟩

end Machine

end BlockScript

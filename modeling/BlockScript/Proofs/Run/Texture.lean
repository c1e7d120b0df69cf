import BlockScript.Proofs.Run.Account
import BlockScript.Proofs.Run.Completion
import BlockScript.Proofs.Run.Identity

/-! Texture requests from their begin to their end. Every request that a chain begins it waits for
once, and an object comes of it only if the generator has made a texture by then. -/

namespace BlockScript

def Object.content (o : Object) : ObjectKind × String × String :=
  (o.kind, o.prompt, o.texture)

/-- A texture request that is over, with what came of it: nothing if it was abandoned at a stop. -/
structure Settlement where
  request : ObjectRequest
  result : Option (Except TextureError String)

/-- The content of the object that comes of a request. -/
def Settlement.content? (s : Settlement) : Option (ObjectKind × String × String) :=
  match s.result with
  | some (.ok texture) => some (s.request.kind, s.request.prompt, texture)
  | _ => none

namespace World

theorem settled_objects (w : World) (request : ObjectRequest) :
    ∃ new, (w.settled request).stage.objects = w.stage.objects ++ new ∧
      new.map Object.content = [Settlement.mk request (w.textureResult request)].filterMap (·.content?) := by
  unfold settled
  split
  · rename_i texture hr
    refine ⟨[⟨_, request.kind, request.prompt, texture⟩], rfl, ?_⟩
    simp [Settlement.content?, hr, Object.content]
  · rename_i hr
    refine ⟨[], (List.append_nil _).symm, ?_⟩
    have hnone : (Settlement.mk request (w.textureResult request)).content? = none := by
      unfold Settlement.content?
      split
      · rename_i texture ht
        exact absurd ht (hr texture)
      · rfl
    simp [hnone]

end World

namespace Chain

/-- The texture request that the chain has begun when it has come to `c'`. -/
def begun (c : Chain) (c' : Option Chain) : List ObjectRequest :=
  if c.holdsTexture then [] else (c'.bind request?).toList

/-- The texture request that is over for the chain when it has come to `c'`. -/
def ended (w : World) (c : Chain) (c' : Option Chain) : List Settlement :=
  if (c'.bind request?).isSome then [] else c.request?.toList.map fun r => ⟨r, w.textureResult r⟩

/-- What chains do to the world on the way from `c` to `c'`: every request is begun, waited for and
over just once, and makes at most its own object. -/
structure Settles (w : World) (c : Option Chain) (begun : List ObjectRequest)
    (ended : List Settlement) (w' : World) (c' : Option Chain) : Prop where
  requests : ((c.bind request?).toList ++ begun).Perm
    (ended.map (·.request) ++ (c'.bind request?).toList)
  objects : ∃ new, w'.stage.objects = w.stage.objects ++ new ∧
    new.map Object.content = ended.filterMap Settlement.content?

theorem Settles.refl (w : World) (c : Option Chain) : Settles w c [] [] w c :=
  ⟨by simp, [], by simp, rfl⟩

theorem Settles.trans {w w' w'' : World} {c c' c'' : Option Chain}
    {begun begun' : List ObjectRequest} {ended ended' : List Settlement}
    (h : Settles w c begun ended w' c') (h' : Settles w' c' begun' ended' w'' c'') :
    Settles w c (begun ++ begun') (ended ++ ended') w'' c'' := by
  obtain ⟨new, ho, hn⟩ := h.objects
  obtain ⟨new', ho', hn'⟩ := h'.objects
  refine ⟨?_, new ++ new', ?_, ?_⟩
  · have hfirst := h.requests.append_right begun'
    have hsecond := h'.requests.append_left (ended.map (·.request))
    simp only [List.append_assoc, List.map_append] at hfirst hsecond ⊢
    exact hfirst.trans hsecond
  · rw [ho', ho, List.append_assoc]
  · rw [List.map_append, hn, hn', List.filterMap_append]

theorem Settles.idle {w w' : World} {c : Chain} {c' : Option Chain}
    (hr : c'.bind request? = c.request?) (ho : w'.stage.objects = w.stage.objects) :
    Settles w (some c) (c.begun c') (c.ended w c') w' c' := by
  have hb : c.begun c' = [] := by
    unfold begun
    split
    · rfl
    · rename_i hh
      rw [hr]
      rw [← isSome_request?, Option.not_isSome_iff_eq_none] at hh
      rw [hh]
      rfl
  have he : c.ended w c' = [] := by
    unfold ended
    split
    · rfl
    · rename_i hh
      rw [hr, Option.not_isSome_iff_eq_none] at hh
      rw [hh]
      rfl
  rw [hb, he]
  refine ⟨?_, [], by simp [ho], rfl⟩
  rw [hr]
  simp

theorem Stepped.settles {w w' : World} {c : Chain} {c' : Option Chain} (h : c.Stepped w w' c') :
    Settles w (some c) (c.begun c') (c.ended w c') w' c' := by
  cases h with
  | plain hc hw h' =>
    refine .idle ?_ hw.orderly.objects
    rw [request?_of_isPlain hc, Option.bind_eq_none_iff]
    exact fun d hd => request?_of_isPlain (h' d hd).1
  | @ask w₁ hc hr hw question frames =>
    refine .idle ?_ (hw.orderly.trans (w₁.ask_orderly c.sprite question)).objects
    rw [request?_of_isPlain hc]
    rfl
  | @request w₁ hc hw prompt frames =>
    obtain ⟨log, he⟩ := w₁.requestTexture_eq prompt
    have hold := request?_of_isPlain hc
    have hnew : request? { c with frames := frames, task := (w₁.requestTexture prompt).2 } =
        some (.ofPrompt prompt) := rfl
    generalize ({ c with frames := frames, task := (w₁.requestTexture prompt).2 } : Chain) = d
      at hnew
    have hb : c.begun (some d) = [.ofPrompt prompt] := by
      simp [begun, holdsTexture_of_isPlain hc, hnew]
    have he' : c.ended w (some d) = [] := by simp [ended, hnew]
    rw [hb, he', he]
    refine ⟨?_, [], ?_, rfl⟩
    · simp [hold, hnew]
    · rw [List.append_nil]
      exact hw.orderly.objects
  | await hc => exact .idle ((request?_of_task (.inl hc)).symm) rfl
  | stay => exact .idle rfl rfl
  | @settle w' d due request hc hw h' =>
    have hold := request?_of_task hc
    have hnew := request?_of_isPlain h'.1
    have hb : c.begun (some d) = [] := if_pos (holdsTexture_of_task hc)
    have he : c.ended w (some d) = [⟨request, w.textureResult request⟩] := by
      simp [ended, hold, hnew]
    rw [hb, he]
    refine ⟨?_, ?_⟩
    · simp [hold, hnew]
    · obtain ⟨new, ho, hn⟩ := w.settled_objects request
      exact ⟨new, hw.orderly.objects.trans ho, hn⟩
  | @answered ask text hc =>
    refine .idle ?_ (w.afterReply_orderly c.sprite ask text).objects
    simp [request?, hc]

theorem requests_append (c : Option Chain) (cs : List Chain) :
    (c.toList ++ cs).filterMap request? = (c.bind request?).toList ++ cs.filterMap request? := by
  rw [List.filterMap_append]
  cases c with
  | none => rfl
  | some c => cases h : c.request? <;> simp [h]

theorem run_settles (scripts : Table Script) (fuel : Nat) (w : World) (c : Chain) :
    Settles w (some c)
      ((c.moments scripts fuel w).flatMap fun p => p.2.begun (p.2.step scripts p.1).2)
      ((c.moments scripts fuel w).flatMap fun p => p.2.ended p.1 (p.2.step scripts p.1).2)
      (c.run scripts fuel w).1 (c.run scripts fuel w).2 := by
  induction fuel generalizing w c with
  | zero => exact .refl w (some c)
  | succ fuel ih =>
    have hs := (step_cases scripts w c).settles
    rw [run, moments]
    simp only [List.flatMap_cons]
    generalize c.step scripts w = p at hs
    obtain ⟨w', _ | d⟩ := p
    · simpa using hs
    · simp only
      split
      · simpa using hs
      · exact hs.trans (ih w' d)

theorem moments_counted {w : World} {c : Chain} {cs : List Chain}
    (h : w.stage.generating = (c :: cs).countP holdsTexture) (scripts : Table Script) (fuel : Nat) :
    ∀ p ∈ c.moments scripts fuel w, p.1.stage.generating = (p.2 :: cs).countP holdsTexture := by
  induction fuel generalizing w c with
  | zero => simp [moments]
  | succ fuel ih =>
    have hs := (step_cases scripts w c).counted h
    rw [moments]
    generalize c.step scripts w = p at hs
    obtain ⟨w', _ | d⟩ := p
    · simpa using h
    · simp only [List.forall_mem_cons]
      split
      · simpa using h
      · exact ⟨h, ih hs⟩

end Chain

namespace Machine

def serving (m : Machine) (g : ObjectRequest → Generator) : Machine :=
  m.mapWorld fun w => { w with services := { w.services with generator := g } }

/-- What has happened since the machine `m₀`, each event with the machine before and after it. Any
event may find another generator than the one before it, so that each request is answered in a way
and at a time of its own. -/
inductive History (m₀ : Machine) : List (Machine × Event × Machine) → Machine → Prop
  | start : History m₀ [] m₀
  | event {past : List (Machine × Event × Machine)} {m m' : Machine} {e : Event}
    (h : History m₀ past m) (g : ObjectRequest → Generator) (he : (m.serving g).next? e = some m') :
    History m₀ (past ++ [(m.serving g, e, m')]) m'

/-- A step that a chain takes, with the world and the scripts it takes it in. -/
structure Stride where
  scripts : Table Script
  world : World
  chain : Chain

namespace Stride

def begun (s : Stride) : List ObjectRequest :=
  s.chain.begun (s.chain.step s.scripts s.world).2

def ended (s : Stride) : List Settlement :=
  s.chain.ended s.world (s.chain.step s.scripts s.world).2

end Stride

def strides : Machine × Event × Machine → List Stride
  | (m, .resumeChain fuel call id, _) =>
    match m.resumable? call id with
    | some (scripts, c) => (c.moments scripts fuel m.world).map fun p => ⟨scripts, p.1, p.2⟩
    | none => []
  | _ => []

def objectsMade : Machine × Event × Machine → List Object
  | (m, .resumeChain .., m') => m.stage.newObjects m'.stage
  | _ => []

theorem strides_resumed {m m' : Machine} {fuel call id : Nat} {scripts : Table Script} {c : Chain}
    (h : m.resumable? call id = some (scripts, c)) :
    strides (m, .resumeChain fuel call id, m') =
      (c.moments scripts fuel m.world).map fun p => ⟨scripts, p.1, p.2⟩ := by
  simp only [strides, h]

theorem strides_idle {m m' : Machine} {e : Event}
    (h : ∀ fuel call id, e = .resumeChain fuel call id → m.resumable? call id = none) :
    strides (m, e, m') = [] := by
  cases e with
  | resumeChain fuel call id => simp only [strides, h fuel call id rfl]
  | _ => rfl

theorem objectsMade_idle {m m' : Machine} {e : Event}
    (h : ∀ fuel call id, e = .resumeChain fuel call id → m'.stage = m.stage) :
    objectsMade (m, e, m') = [] := by
  cases e with
  | resumeChain fuel call id =>
    refine Stage.newObjects_append ?_
    rw [h fuel call id rfl, List.append_nil]
  | _ => rfl

/-- What an event does with texture requests: it ends some that were waited for or that it has
begun itself, while they are still counted, and objects come of those that were answered. -/
structure Tracked (m : Machine) (e : Event) (m' : Machine) : Prop where
  counted : ∀ s ∈ strides (m, e, m'), s.ended ≠ [] → 0 < s.world.stage.generating
  requests : (m.chains.filterMap Chain.request? ++ (strides (m, e, m')).flatMap (·.begun)).Perm
    (((strides (m, e, m')).flatMap (·.ended)).map (·.request) ++
      m'.chains.filterMap Chain.request?)
  objects : (objectsMade (m, e, m')).map Object.content =
    ((strides (m, e, m')).flatMap (·.ended)).filterMap Settlement.content?

theorem holdsTexture_of_ended {s : Stride} (h : s.ended ≠ []) : s.chain.holdsTexture = true := by
  rw [← Chain.isSome_request?]
  cases hr : s.chain.request? with
  | none => simp [Stride.ended, Chain.ended, hr] at h
  | some request => rfl

theorem next?_tracked {m m' : Machine} (hm : m.Tidy) {e : Event} (h : m.next? e = some m')
    (hc : m.stage.generating = m.chains.countP Chain.holdsTexture) : Tracked m e m' := by
  rcases (next?_outcome hm h).requests (tidy_asleep.mpr hm) with
    ⟨fuel, call, id, scripts, c, rest, rfl, hres, hbefore, hafter, hstage⟩ | ⟨hidle, -, hperm⟩
  · -- Only the chain that goes on begins and ends requests, and those of the rest stay.
    rw [resumable?_asleep] at hres
    rw [chains_asleep] at hbefore hafter
    have hstage' : m'.stage = (c.run scripts fuel m.world).1.stage := hstage
    have hsteps : strides (m, .resumeChain fuel call id, m') = _ := strides_resumed hres
    obtain ⟨hrequests, new, hnew, hcontent⟩ := c.run_settles scripts fuel m.world
    refine ⟨?_, ?_, ?_⟩
    · rw [hbefore.countP_eq] at hc
      rw [hsteps, List.forall_mem_map]
      intro p hp hended
      rw [Chain.moments_counted hc scripts fuel p hp,
        List.countP_cons_of_pos (holdsTexture_of_ended hended)]
      exact Nat.succ_pos _
    · have hold := hbefore.filterMap Chain.request?
      have hleft := hafter.filterMap Chain.request?
      rw [← List.singleton_append, ← Option.toList_some, Chain.requests_append] at hold
      rw [Chain.requests_append] at hleft
      rw [hsteps, List.flatMap_map, List.flatMap_map]
      refine (hold.append_right _).trans ?_
      refine List.Perm.trans ?_ (hleft.symm.append_left _)
      rw [← List.append_assoc, List.append_assoc _ _ (List.flatMap _ _)]
      refine (List.perm_append_comm.append_left _).trans ?_
      rw [← List.append_assoc]
      exact hrequests.append_right _
    · have hobjects : m'.stage.objects = m.stage.objects ++ new := by
        rw [hstage']
        exact hnew
      have ho : objectsMade (m, .resumeChain fuel call id, m') = new :=
        Stage.newObjects_append hobjects
      rw [ho, hcontent, hsteps, List.flatMap_map]
      rfl
  · have hs : strides (m, e, m') = [] :=
      strides_idle fun fuel call id he => m.resumable?_asleep call id ▸ (hidle fuel call id he).1
    have ho : objectsMade (m, e, m') = [] := objectsMade_idle fun fuel call id he => by
      have hsame : m'.asleep.stage = m.asleep.stage := congrArg stage (hidle fuel call id he).2
      exact hsame
    rw [chains_asleep, chains_asleep] at hperm
    refine ⟨?_, ?_, ?_⟩
    · simp [hs]
    · simpa [hs] using hperm.symm
    · simp [hs, ho]

theorem serving_tidy {m : Machine} (hm : m.Tidy) (g : ObjectRequest → Generator) :
    (m.serving g).Tidy :=
  ⟨hm.attached, hm.sent, hm.calls, hm.fresh, hm.runs⟩

theorem History.tidy {m₀ m : Machine} {past : List (Machine × Event × Machine)}
    (h : History m₀ past m) (hm : m₀.Tidy) : m.Tidy := by
  induction h with
  | start => exact hm
  | event _ g he ih => exact (serving_tidy ih g).next he

theorem History.counted {m₀ m : Machine} {past : List (Machine × Event × Machine)}
    (h : History m₀ past m) (hm : m₀.Tidy)
    (hc : m₀.stage.generating = m₀.chains.countP Chain.holdsTexture) :
    m.stage.generating = m.chains.countP Chain.holdsTexture := by
  induction h with
  | start => exact hc
  | @event past m m' e h g he ih =>
    have htidy := serving_tidy (h.tidy hm) g
    have ho := (next?_outcome htidy he).counted (tidy_asleep.mpr htidy)
    rw [chains_asleep, chains_asleep] at ho
    exact ho ih

theorem History.tracked {m₀ m : Machine} {past : List (Machine × Event × Machine)}
    (h : History m₀ past m) (hm : m₀.Tidy)
    (hc : m₀.stage.generating = m₀.chains.countP Chain.holdsTexture) :
    ∀ e ∈ past, Tracked e.1 e.2.1 e.2.2 := by
  induction h with
  | start => exact fun e he => absurd he List.not_mem_nil
  | @event past m m' e h g he ih =>
    rw [List.forall_mem_append, List.forall_mem_singleton]
    exact ⟨ih, next?_tracked (serving_tidy (h.tidy hm) g) he (h.counted hm hc)⟩

theorem History.requests {m₀ m : Machine} {past : List (Machine × Event × Machine)}
    (h : History m₀ past m) (ht : ∀ e ∈ past, Tracked e.1 e.2.1 e.2.2) :
    (m₀.chains.filterMap Chain.request? ++ (past.flatMap strides).flatMap (·.begun)).Perm
      (((past.flatMap strides).flatMap (·.ended)).map (·.request) ++
        m.chains.filterMap Chain.request?) := by
  induction h with
  | start => simp
  | @event past m m' e h g he ih =>
    rw [List.forall_mem_append, List.forall_mem_singleton] at ht
    have hpast := (ih ht.1).append_right ((strides (m.serving g, e, m')).flatMap (·.begun))
    have hlast := ht.2.requests.append_left
      (((past.flatMap strides).flatMap (·.ended)).map (·.request))
    simp only [List.flatMap_append, List.flatMap_singleton, List.map_append,
      List.append_assoc] at hpast hlast ⊢
    exact hpast.trans hlast

theorem contents_of_tracked {past : List (Machine × Event × Machine)}
    (h : ∀ e ∈ past, Tracked e.1 e.2.1 e.2.2) :
    (past.flatMap objectsMade).map Object.content =
      ((past.flatMap strides).flatMap (·.ended)).filterMap Settlement.content? := by
  induction past with
  | nil => rfl
  | cons e past ih =>
    rw [List.forall_mem_cons] at h
    simp only [List.flatMap_cons, List.flatMap_append, List.map_append, List.filterMap_append,
      ih h.2, h.1.objects]

/-- The counter of texture requests is exact in every machine that comes of a project without
requests, however the generator answers: it counts the chains that wait for a texture, it is above
zero whenever it is counted down, and it is zero when no call is pending. Every request begun is
over once or still waited for, and the objects that chains have added are those of the requests
that were answered with a texture, one each. -/
theorem texture_counter_exact {p : Project} (hp : p.stage.generating = 0) {options : Options}
    {services : Services} {past : List (Machine × Event × Machine)} {m : Machine}
    (h : History (create p options services) past m) :
    m.stage.generating = m.chains.countP Chain.holdsTexture ∧
    (∀ e ∈ past, ∀ s ∈ strides e, s.ended ≠ [] → 0 < s.world.stage.generating) ∧
    (m.runs = [] → m.stage.generating = 0) ∧
    ((past.flatMap strides).flatMap (·.begun)).Perm
      (((past.flatMap strides).flatMap (·.ended)).map (·.request) ++
        m.chains.filterMap Chain.request?) ∧
    (past.flatMap objectsMade).map Object.content =
      ((past.flatMap strides).flatMap (·.ended)).filterMap Settlement.content? := by
  have htidy := create_tidy p options services
  have hzero : (create p options services).stage.generating =
      (create p options services).chains.countP Chain.holdsTexture := hp
  have hcount := h.counted htidy hzero
  have htracked := h.tracked htidy hzero
  refine ⟨hcount, fun e he => (htracked e he).counted, fun hruns => ?_, ?_, ?_⟩
  · rw [hcount, chains, hruns]
    rfl
  · exact h.requests htracked
  · exact contents_of_tracked htracked

/-- The history of a machine through events, each with the generator it finds. -/
def recorded (m₀ : Machine) (es : List ((ObjectRequest → Generator) × Event)) :
    Option (List (Machine × Event × Machine) × Machine) :=
  es.foldlM (fun (past, m) (g, e) =>
    ((m.serving g).next? e).map fun m' => (past ++ [(m.serving g, e, m')], m')) ([], m₀)

theorem recorded_history {m₀ m : Machine} {es : List ((ObjectRequest → Generator) × Event)}
    {past : List (Machine × Event × Machine)} (h : m₀.recorded es = some (past, m)) :
    History m₀ past m := by
  unfold recorded at h
  induction es using List.reverseRecOn generalizing past m with
  | nil =>
    cases h
    exact .start
  | append_singleton es ge ih =>
    rw [List.foldlM_append] at h
    obtain ⟨⟨before, m₁⟩, h₁, he⟩ := Option.bind_eq_some_iff.mp h
    rw [List.foldlM_cons] at he
    obtain ⟨next, hnext, he⟩ := Option.bind_eq_some_iff.mp he
    obtain ⟨m', hm', rfl⟩ := Option.map_eq_some_iff.mp hnext
    cases he
    exact .event (ih h₁) ge.1 hm'

def twoObjects : Script :=
  ⟨[.create "a" .whenFlagClicked ⟨0, 0⟩,
    ⟨"b", .createObject, ⟨0, 40⟩, [("object", .literal (.text "a box of stone"))]⟩,
    ⟨"c", .createObject, ⟨0, 80⟩, [("object", .literal (.text "a box of wood"))]⟩], 3⟩

/-- The generator makes the first texture, and a stop comes before it can make the second. -/
def oneTexture : List ((ObjectRequest → Generator) × Event) :=
  let slow : ObjectRequest → Generator := fun _ => ⟨10, .error .emptyResponse⟩
  let stone : ObjectRequest → Generator := fun _ => ⟨10, .ok "stone.png"⟩
  [(slow, .edit (.addSprite defaultCostume)),
    (slow, .edit (.editScript "sprite-1" fun _ => .ok (twoObjects, ()))),
    (slow, .obey .flag), (slow, .advance 50), (slow, .beginRun 0), (slow, .resumeChain 9 0 1),
    (slow, .advance 60), (stone, .resumeChain 9 0 1), (slow, .advance 110),
    (slow, .resumeChain 9 0 1), (slow, .obey .stop), (stone, .resumeChain 9 0 1),
    (slow, .finish 0)]

theorem texture_counter_exact_at_stop :
    ∃ past m, History (create .empty {} {}) past m ∧ m.stage.generating = 0 ∧
      ((past.flatMap strides).flatMap (·.ended)).length = 2 ∧
      (past.flatMap objectsMade).map Object.content = [(.box, "a box of stone", "stone.png")] := by
  have he : ((create .empty {} {}).recorded oneTexture).map (fun (past, m) =>
      (m.runs.length, ((past.flatMap strides).flatMap (·.ended)).length,
        ((past.flatMap strides).flatMap (·.ended)).filterMap Settlement.content?)) =
      some (0, 2, [(.box, "a box of stone", "stone.png")]) := by
    decide +kernel
  obtain ⟨⟨past, m⟩, hm, he⟩ := Option.map_eq_some_iff.mp he
  simp only [Prod.mk.injEq, List.length_eq_zero_iff] at he
  obtain ⟨hruns, hlength, hcontents⟩ := he
  have h := recorded_history hm
  obtain ⟨-, -, hzero, -, hobjects⟩ := texture_counter_exact rfl h
  exact ⟨past, m, h, hzero hruns, hlength, hobjects.trans hcontents⟩

end Machine

end BlockScript

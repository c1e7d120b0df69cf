import BlockScript.Proofs.Run.Control

/-! Questions and their answers. Asks are numbered in the order in which they are put, an answer
goes to the oldest ask that is pending, and every ask gets one reply, at the latest when its run
is halted. -/

namespace BlockScript

namespace Chain

/-- The reply that the chain has got, but has not taken up yet. -/
def reply? (c : Chain) : Option (Nat × String) :=
  match c.task with
  | .wait (.reply ask (some text)) => some (ask, text)
  | _ => none

/-- The chain after each ask of `asks` got the answer `text`. -/
def settled (asks : List Nat) (text : String) (c : Chain) : Chain :=
  asks.foldl (fun c ask => c.receive ask text) c

/-- The reply that a chain has got since it was `before`. -/
def gained (before : Option Chain) (c : Chain) : Option (Nat × String) :=
  if before.bind reply? = c.reply? then none else c.reply?

theorem task_of_ask? {c : Chain} {ask : Nat} (h : c.ask? = some ask) :
    c.task = .wait (.reply ask none) := by
  unfold ask? at h
  split at h
  · rename_i ht
    cases h
    exact ht
  · cases h

theorem receive_of_ne {ask : Nat} {c : Chain} (h : c.ask? ≠ some ask) (text : String) :
    c.receive ask text = c := by
  rw [receive, if_neg]
  rwa [awaits_iff]

theorem settled_of_idle {asks : List Nat} {c : Chain} (h : ∀ ask ∈ c.ask?, ask ∉ asks)
    (text : String) : c.settled asks text = c := by
  induction asks with
  | nil => rfl
  | cons ask asks ih =>
    have hne : c.ask? ≠ some ask := fun he => h ask he List.mem_cons_self
    change (c.receive ask text).settled asks text = c
    rw [receive_of_ne hne]
    exact ih fun a ha hmem => h a ha (List.mem_cons_of_mem _ hmem)

theorem settled_of_mem {asks : List Nat} {c : Chain} {ask : Nat} (h : c.ask? = some ask)
    (hmem : ask ∈ asks) (text : String) :
    c.settled asks text = { c with task := .wait (.reply ask (some text)) } := by
  induction asks with
  | nil => cases hmem
  | cons a asks ih =>
    change (c.receive a text).settled asks text = _
    by_cases ha : a = ask
    · subst ha
      rw [receive, if_pos (awaits_iff.mpr h)]
      exact settled_of_idle (by simp [ask?]) text
    · have hne : c.ask? ≠ some a := by
        rw [h]
        simpa using Ne.symm ha
      rw [receive_of_ne hne]
      exact ih ((List.mem_cons.mp hmem).resolve_left (Ne.symm ha))

theorem settled_id (asks : List Nat) (text : String) (c : Chain) :
    (c.settled asks text).id = c.id := by
  induction asks generalizing c with
  | nil => rfl
  | cons ask asks ih => exact (ih _).trans (c.receive_id ask text)

theorem gained_same (c : Chain) : gained (some c) c = none :=
  if_pos rfl

theorem gained_settled (asks : List Nat) (text : String) (c : Chain) :
    gained (some c) (c.settled asks text) =
      (c.ask?.filter (· ∈ asks)).map fun ask => (ask, text) := by
  by_cases h : ∀ ask ∈ c.ask?, ask ∉ asks
  · rw [settled_of_idle h, gained_same]
    cases ha : c.ask? with
    | none => rfl
    | some ask => rw [Option.filter_some_neg (by simpa using h ask ha), Option.map_none]
  · push Not at h
    obtain ⟨ask, ha, hmem⟩ := h
    have hc : c.reply? = none := by simp only [reply?, task_of_ask? ha]
    rw [settled_of_mem ha hmem, show c.ask? = some ask from ha,
      Option.filter_some_pos (by simpa using hmem), gained, Option.bind_some, hc, if_neg nofun]
    rfl

theorem reply?_of_isPlain {c : Chain} (h : c.task.isPlain = true) : c.reply? = none := by
  unfold reply?
  split
  · rename_i ht
    rw [ht] at h
    cases h
  · rfl

theorem step_reply? {scripts : Table Script} {w : World} {c d : Chain}
    (h : (c.step scripts w).2 = some d) : d.reply? = none := by
  cases hc : c.reply? with
  | some p =>
    unfold reply? at hc
    split at hc
    · rename_i ht
      simp only [step, ht, Option.some.injEq] at h
      rw [← h]
      rfl
    · cases hc
  | none =>
    have hs := step_cases scripts w c
    generalize (c.step scripts w).1 = w', (c.step scripts w).2 = c' at hs h
    subst h
    cases hs with
    | plain _ _ h' => exact reply?_of_isPlain (h' d rfl).1
    | settle _ _ h' => exact reply?_of_isPlain h'.1
    | stay => exact hc
    | _ => rfl

theorem run_reply? {scripts : Table Script} {fuel : Nat} {w : World} {c : Chain} :
    ∀ d ∈ (c.run scripts fuel w).2, d = c ∨ d.reply? = none := by
  refine run_induction (P := fun _ d => ∀ d' ∈ d, d' = c ∨ d'.reply? = none) ?_ ?_ fuel
  · exact fun w d _ d' hd' => .inr (step_reply? hd')
  · rintro d ⟨⟩
    exact .inl rfl

theorem canResume_of_reply? {c : Chain} {ask : Nat} {text : String}
    (ht : c.task = .wait (.reply ask (some text))) (w : World) : c.canResume w = true := by
  simp only [canResume, ht]
  rfl

theorem run_of_reply? {c : Chain} {ask : Nat} {text : String}
    (ht : c.task = .wait (.reply ask (some text))) (scripts : Table Script) (fuel : Nat)
    (w : World) :
    c.run scripts (fuel + 1) w =
      { c with task := .resume }.run scripts fuel (w.afterReply c.sprite ask text) := by
  rw [run]
  simp only [step, ht]
  rfl

/-- What steps do to the asks: nothing, or one is put and the chain waits on it. -/
def Asks (w w' : World) (c' : Option Chain) : Prop :=
  w'.asks = w.asks ∧ w'.lastAsk = w.lastAsk ∨
    w'.asks = w.asks ++ [w.lastAsk + 1] ∧ w'.lastAsk = w.lastAsk + 1 ∧
      ∃ d, c' = some d ∧ d.ask? = some (w.lastAsk + 1)

theorem step_asks (scripts : Table Script) (w : World) (c : Chain) :
    Asks w (c.step scripts w).1 (c.step scripts w).2 := by
  have hs := step_cases scripts w c
  generalize (c.step scripts w).1 = w', (c.step scripts w).2 = c' at hs
  have hsteady (h : w.Steady w') : Asks w w' c' := .inl ⟨h.asks, h.lastAsk⟩
  cases hs with
  | plain hc hw h' => exact hsteady hw.steady
  | @ask w₁ hc hr hw question frames =>
    refine .inr ⟨?_, ?_, _, rfl, ?_⟩
    · change w₁.asks ++ [w₁.lastAsk + 1] = _
      rw [hw.steady.asks, hw.steady.lastAsk]
    · change w₁.lastAsk + 1 = _
      rw [hw.steady.lastAsk]
    · rw [hw.steady.lastAsk]
      rfl
  | @request w₁ hc hw prompt frames =>
    obtain ⟨log, he⟩ := w₁.requestTexture_eq prompt
    rw [he]
    exact .inl ⟨hw.steady.asks, hw.steady.lastAsk⟩
  | await | stay => exact .inl ⟨rfl, rfl⟩
  | @settle w' d due request hc hw h' => exact hsteady ((w.settled_steady request).trans hw.steady)
  | answered hc =>
    unfold World.afterReply
    split <;> exact .inl ⟨rfl, rfl⟩

theorem isWaiting_of_ask? {c : Chain} {ask : Nat} (h : c.ask? = some ask) :
    c.isWaiting = true := by
  simp only [isWaiting, task_of_ask? h]

theorem run_asks (scripts : Table Script) (fuel : Nat) (w : World) (c : Chain) :
    Asks w (c.run scripts fuel w).1 (c.run scripts fuel w).2 := by
  induction fuel generalizing w c with
  | zero => exact .inl ⟨rfl, rfl⟩
  | succ fuel ih =>
    have hs := c.step_asks scripts w
    rw [run]
    generalize c.step scripts w = p at hs
    obtain ⟨w', _ | d⟩ := p
    · exact hs
    · simp only at hs ⊢
      split
      · exact hs
      · rename_i hawake
        rcases hs with ⟨ha, hl⟩ | ⟨-, -, d', hd', hask⟩
        · have hrest := ih w' d
          unfold Asks at hrest ⊢
          rwa [ha, hl] at hrest
        · cases hd'
          exact absurd (isWaiting_of_ask? hask) hawake

end Chain

/-- The world after `text` was taken up: it is bound to the answer, and the sprite is silent. -/
structure World.Bound (w w' : World) (sprite text : String) : Prop where
  answer : w'.stage.valueOf answerName = .text text
  values : ∀ name, name ≠ answerName → w'.stage.valueOf name = w.stage.valueOf name
  silent : ∀ s ∈ w'.stage.sprite? sprite, s.speech = none
  sprites : ∀ id, id ≠ sprite → w'.stage.sprite? id = w.stage.sprite? id
  prompts : w'.stage.prompts = w.stage.prompts

theorem Stage.updateSprite_valueOf (s : Stage) (id : String) (f : Sprite → Sprite) (name : String) :
    (s.updateSprite id f).valueOf name = s.valueOf name := by
  unfold updateSprite
  split <;> rfl

theorem World.afterReply_bound {w : World} (hr : w.running = true) {ask : Nat}
    (ha : ∀ p ∈ w.stage.prompts, p.id ≠ ask) (sprite text : String) :
    w.Bound (w.afterReply sprite ask text) sprite text := by
  let bound := { w.stage with prompts := w.stage.prompts.filter (·.id != ask) }.setVariable
    answerName (.text text)
  have hstage : (w.afterReply sprite ask text).stage = bound.updateSprite sprite Sprite.hush := by
    rw [afterReply, if_pos hr]
    rfl
  have hvalue (name : String) :
      bound.valueOf name = if name = answerName then .text text else w.stage.valueOf name := by
    simp only [bound, Stage.valueOf, Stage.setVariable, Table.get?_insert]
    split <;> rfl
  constructor
  · rw [hstage, Stage.updateSprite_valueOf, hvalue, if_pos rfl]
  · intro name hn
    rw [hstage, Stage.updateSprite_valueOf, hvalue, if_neg hn]
  · intro s hs
    rw [hstage, Stage.updateSprite_sprite?, if_pos rfl] at hs
    obtain ⟨b, -, rfl⟩ := Option.map_eq_some_iff.mp hs
    rfl
  · intro id hn
    rw [hstage, Stage.updateSprite_sprite?, if_neg hn]
    rfl
  · rw [hstage, Stage.updateSprite_prompts]
    exact List.filter_eq_self.mpr fun p hp => by simpa using ha p hp

namespace Machine

def pending (m : Machine) : List Nat :=
  m.chains.filterMap Chain.ask?

/-- The replies that chains get in an event. -/
def repliesBy (m : Machine) (_ : Event) (m' : Machine) : List (Nat × String) :=
  m'.runs.flatMap fun r => r.chains.filterMap fun c => Chain.gained (m.chain? r.call c.id) c

theorem pending_asleep (m : Machine) : m.asleep.pending = m.pending := by
  rw [pending, chains_asleep, pending]

theorem repliesBy_asleep (m m' : Machine) (e : Event) :
    repliesBy m.asleep e m'.asleep = repliesBy m e m' := by
  simp only [repliesBy, chain?_asleep]
  simp only [asleep, lanes, List.flatMap_map]
  rfl

theorem chain?_of_mem {m : Machine} (hm : m.Tidy) {r : Run} (hr : r ∈ m.runs) {c : Chain}
    (hc : c ∈ r.chains) : m.chain? r.call c.id = some c :=
  (chain?_eq_some_iff hm).mpr ⟨rfl, r, hr, rfl, hc⟩

/-- Every chain of the runs `R` is as it is in `m`, unless it has no reply. -/
def Unanswered (m : Machine) (R : List Run) : Prop :=
  ∀ r ∈ R, ∀ c ∈ r.chains, c.reply? = none ∨ m.chain? r.call c.id = some c

theorem unanswered_runs {m : Machine} (hm : m.Tidy) : m.Unanswered m.runs :=
  fun _ hr _ hc => .inr (chain?_of_mem hm hr hc)

theorem Unanswered.replace {m : Machine} {R₁ R₂ : List Run} {r r' : Run}
    (h : m.Unanswered (R₁ ++ r :: R₂)) (hcall : r'.call = r.call)
    (hr : ∀ c ∈ r'.chains, c ∈ r.chains ∨ c.reply? = none) :
    m.Unanswered (R₁ ++ r' :: R₂) := by
  intro s hs c hc
  rcases List.mem_append.mp hs with hs | hs
  · exact h s (by simp [hs]) c hc
  · rcases List.mem_cons.mp hs with rfl | hs
    · rcases hr c hc with hc | hc
      · rw [hcall]
        exact h r (by simp) c hc
      · exact .inl hc
    · exact h s (by simp [hs]) c hc

theorem Unanswered.withHats {m : Machine} {R₁ R₂ : List Run} {r r' : Run} {last : Nat}
    {hats : List (String × Script × Block)} (h : m.Unanswered (R₁ ++ r :: R₂))
    (hcall : r'.call = r.call) (hr : r'.chains = r.chains) :
    m.Unanswered (R₁ ++ r'.withHats last hats :: R₂) := by
  refine h.replace hcall fun c hc => ?_
  rcases List.mem_append.mp hc with hc | hc
  · exact .inl (hr ▸ hc)
  · obtain ⟨-, blocks, hat, ht⟩ := Chain.start_of_mem_ofHats hc
    exact .inr (Chain.reply?_of_isPlain (by rw [ht]; rfl))

theorem repliesBy_nil {m m' : Machine} (h : m.Unanswered m'.runs) (e : Event) :
    repliesBy m e m' = [] := by
  refine List.flatMap_eq_nil_iff.mpr fun r hr => List.filterMap_eq_nil_iff.mpr fun c hc => ?_
  rcases h r hr c hc with hnone | hsame
  · unfold Chain.gained
    split
    · rfl
    · exact hnone
  · rw [hsame]
    exact c.gained_same

theorem repliesBy_settled {m m' : Machine} (hm : m.Tidy) {R : List Run} (hR : ∀ r ∈ R, r ∈ m.runs)
    (asks : List Nat) (text : String) (f : Run → Run) (hruns : m'.runs = R.map f)
    (hcall : ∀ r, (f r).call = r.call)
    (hchains : ∀ r, (f r).chains = r.chains.map (Chain.settled asks text)) (e : Event) :
    repliesBy m e m' =
      (((R.flatMap (·.chains)).filterMap Chain.ask?).filter (· ∈ asks)).map
        fun ask => (ask, text) := by
  have hrun (r : Run) (hr : r ∈ m.runs) :
      (f r).chains.filterMap (fun c => Chain.gained (m.chain? (f r).call c.id) c) =
        ((r.chains.filterMap Chain.ask?).filter (· ∈ asks)).map fun ask => (ask, text) := by
    rw [hchains, hcall, List.filterMap_map, List.filter_filterMap, List.map_filterMap]
    refine List.filterMap_congr fun c hc => ?_
    simp only [Function.comp_apply, Chain.settled_id]
    rw [chain?_of_mem hm hr hc, Chain.gained_settled]
  rw [repliesBy, hruns, List.flatMap_map, List.filterMap_flatMap, List.filter_flatMap,
    List.map_flatMap]
  exact List.flatMap_congr fun r hr => hrun r (hR r hr)

/-- What an event does to the asks, and the replies that it gives. -/
inductive Asked (m : Machine) : Event → Machine → Prop
  | keeps {e : Event} {m' : Machine} (he : e.isHalt = false) (ha : m'.world.asks = m.world.asks)
    (hl : m'.world.lastAsk = m.world.lastAsk) (hr : repliesBy m e m' = []) : Asked m e m'
  | puts {fuel call id : Nat} {m' : Machine} {c : Chain}
    (ha : m'.world.asks = m.world.asks ++ [m.world.lastAsk + 1])
    (hl : m'.world.lastAsk = m.world.lastAsk + 1)
    (hr : repliesBy m (.resumeChain fuel call id) m' = []) (hc : m'.chain? call id = some c)
    (hask : c.ask? = some (m.world.lastAsk + 1)) : Asked m (.resumeChain fuel call id) m'
  | answers {text : String} {ask : Nat} {rest : List Nat} {m' : Machine}
    (hm : m.world.asks = ask :: rest) (ha : m'.world.asks = rest)
    (hl : m'.world.lastAsk = m.world.lastAsk)
    (hr : repliesBy m (.obey (.answer text)) m' = [(ask, text)]) :
    Asked m (.obey (.answer text)) m'
  | halts {e : Event} {m' : Machine} (he : e.isHalt = true) (ha : m'.world.asks = [])
    (hl : m'.world.lastAsk = m.world.lastAsk)
    (hr : repliesBy m e m' = m.pending.map fun ask => (ask, "")) : Asked m e m'

theorem pending_filter_first {m : Machine} (hk : m.world.Kept m.chains) {ask : Nat}
    {rest : List Nat} (ha : m.world.asks = ask :: rest) :
    m.pending.filter (· ∈ [ask]) = [ask] := by
  have hinc := hk.increasing
  rw [ha] at hinc
  have hrest : rest.filter (· ∈ [ask]) = [] := by
    refine List.filter_eq_nil_iff.mpr fun a hmem => ?_
    have := (List.pairwise_cons.mp hinc).1 a hmem
    simp only [List.mem_singleton, decide_eq_true_eq]
    omega
  have hperm := hk.waiting.filter (· ∈ [ask])
  rw [ha, List.filter_cons_of_pos (by simp), hrest] at hperm
  exact List.perm_singleton.mp hperm

theorem Outcome.asked {m m' : Machine} {e : Event} (h : Outcome m e m') (hm : m.Tidy)
    (hk : m.world.Kept m.chains) : Asked m e m' := by
  have hm' := h.tidy hm
  have hself := unanswered_runs hm
  have hall : m.pending.filter (· ∈ m.world.asks) = m.pending :=
    List.filter_eq_self.mpr fun ask ha => by simpa using hk.waiting.mem_iff.mp ha
  cases h with
  | host he hp hc => exact .keeps (Event.isHalt_of_isHost he) rfl rfl (repliesBy_nil hself e)
  | tick | wakes | rests =>
    refine .keeps rfl rfl rfl (repliesBy_nil ?_ _)
    exact hself
  | join hs =>
    refine .keeps rfl rfl rfl (repliesBy_nil ?_ _)
    simp only [Unanswered, mapRuns, List.forall_mem_map]
    exact hself
  | @opens c t h =>
    have he : (Event.obey c).isHalt = false := by
      have := isCall_of_starts h
      cases c with
      | flag | click => rfl
      | _ => cases this
    refine .keeps he rfl rfl (repliesBy_nil ?_ _)
    intro r hr c hc
    rcases List.mem_append.mp hr with hr | hr
    · exact hself r hr c hc
    · rw [List.mem_singleton.mp hr] at hc
      cases hc
  | stop =>
    refine .halts rfl (World.halted_asks _) (World.halted_lastAsk _) ?_
    rw [repliesBy_settled hm (fun r hr => hr) m.world.asks "" (·.silenced m.world.asks) rfl
      (fun r => rfl) (fun r => rfl)]
    exact congrArg _ hall
  | @answer text ask rest ha =>
    refine .answers ha rfl rfl ?_
    rw [repliesBy_settled hm (fun r hr => hr) [ask] text
      (fun r => { r with chains := r.chains.map (·.receive ask text) }) rfl (fun r => rfl)
      (fun r => rfl)]
    exact congrArg _ (pending_filter_first hk ha)
  | begins hr hp hw =>
    rw [hr] at hself
    refine .keeps rfl rfl rfl (repliesBy_nil ?_ _)
    exact hself.withHats rfl rfl
  | handles hr hp hh =>
    rw [hr] at hself
    refine .keeps rfl rfl rfl (repliesBy_nil ?_ _)
    exact hself.withHats rfl rfl
  | @resumes R₁ R₂ r l₁ l₂ c c' w' fuel hr hl hc hrun =>
    have hback : m.Unanswered ((R₁ ++ { r with chains := l₁ ++ l₂ ++ c'.toList } :: R₂).map
        (·.taking w'.sender w'.sent)) := by
      simp only [Unanswered, List.forall_mem_map]
      rw [hr] at hself
      refine hself.replace rfl fun d hd => ?_
      rcases List.mem_append.mp hd with hd | hd
      · left
        rw [hl]
        simp only [List.mem_append, List.mem_cons] at hd ⊢
        tauto
      · have hd : (c.run r.scripts fuel m.world).2 = some d := by
          rw [hrun]
          exact Option.mem_toList.mp hd
        rcases Chain.run_reply? d hd with rfl | hnone
        · left
          rw [hl]
          exact List.mem_append_cons_self
        · exact .inr hnone
    have hasks := c.run_asks r.scripts fuel m.world
    rw [hrun] at hasks
    rcases hasks with ⟨ha, hlast⟩ | ⟨ha, hlast, d, hd, hask⟩
    · exact .keeps rfl ha hlast (repliesBy_nil hback _)
    · subst hd
      refine .puts ha hlast (repliesBy_nil hback _) ((chain?_eq_some_iff hm').mpr ⟨?_, ?_⟩) hask
      · exact (Chain.run_id (show (c.run r.scripts fuel m.world).2 = some d by rw [hrun])).1
      · exact ⟨_, List.mem_map_of_mem List.mem_append_cons_self, rfl, by simp [Run.taking]⟩
  | @finishes R₁ R₂ r hr ho =>
    have hnil : r.chains = [] := (hm.runs r (by rw [hr]; simp)).chains_of_isOver ho
    have hc : m.chains = (R₁ ++ R₂).flatMap (·.chains) := by
      rw [chains, hr]
      simp [hnil]
    refine .halts rfl (World.halted_asks _) (World.halted_lastAsk _) ?_
    have hR : ∀ s ∈ R₁ ++ R₂, s ∈ m.runs := by
      intro s hs
      rw [hr]
      simp only [List.mem_append, List.mem_cons] at hs ⊢
      tauto
    rw [repliesBy_settled hm hR m.world.asks "" (·.silenced m.world.asks) rfl (fun r => rfl)
      (fun r => rfl), ← hc]
    exact congrArg _ hall

theorem next?_asked {m m' : Machine} {e : Event} (h : m.Reachable) (he : m.next? e = some m') :
    Asked m e m' := by
  have hk := h.kept
  rw [← chains_asleep] at hk
  have ho := (next?_outcome h.tidy he).asked (tidy_asleep.mpr h.tidy) hk
  have hreplies (e : Event) := repliesBy_asleep m m' e
  have hchain := m'.chain?_asleep
  have hworld : m'.asleep.world = m'.world := rfl
  generalize m'.asleep = a' at ho hreplies hchain hworld
  cases ho with
  | keeps hh ha hl hr => exact .keeps hh (hworld ▸ ha) (hworld ▸ hl) (hreplies e ▸ hr)
  | puts ha hl hr hc hask =>
    exact .puts (hworld ▸ ha) (hworld ▸ hl) (hreplies _ ▸ hr) (hchain .. ▸ hc) hask
  | answers hasks ha hl hr =>
    exact .answers hasks (hworld ▸ ha) (hworld ▸ hl) (hreplies _ ▸ hr)
  | halts hh ha hl hr =>
    exact .halts hh (hworld ▸ ha) (hworld ▸ hl) (hreplies e ▸ m.pending_asleep ▸ hr)

/-- Every ask that was ever put is pending or has got one reply. -/
theorem replied_or_pending {options : Options} {services : Services} {es : List Event}
    {m : Machine} (h : (create .empty options services).after es = some m) :
    (((create .empty options services).gather repliesBy es).map Prod.fst ++ m.world.asks).Perm
      (List.range' 1 m.world.lastAsk) := by
  refine after_induction (P := fun es m =>
    (((create .empty options services).gather repliesBy es).map Prod.fst ++ m.world.asks).Perm
      (List.range' 1 m.world.lastAsk)) (by simp [gather, create]) ?_ h
  intro es m e m' hb ih he
  have hm : m.Reachable := ⟨options, services, es, hb⟩
  rw [gather_snoc hb he, List.map_append]
  cases next?_asked hm he with
  | keeps hh ha hl hr =>
    rw [hr, ha, hl, List.map_nil, List.append_nil]
    exact ih
  | puts ha hl hr hc hask =>
    rw [hr, ha, hl, List.map_nil, List.append_nil, ← List.append_assoc, List.range'_1_concat,
      Nat.add_comm 1]
    exact ih.append_right _
  | answers hasks ha hl hr =>
    rw [hr, ha, hl, List.append_assoc]
    rw [hasks] at ih
    exact ih
  | halts hh ha hl hr =>
    rw [hr, ha, hl, List.append_nil, List.map_map]
    refine List.Perm.trans ?_ ih
    rw [show (Prod.fst ∘ fun ask : Nat => (ask, "")) = id from rfl, List.map_id]
    exact hm.kept.waiting.append_left _

theorem Outcome.chain?_settled {m m' : Machine} {e : Event} (h : Outcome m e m') (hm : m.Tidy)
    {call id : Nat} {c : Chain} (hc : m.chain? call id = some c)
    (he : ∀ fuel, e ≠ .resumeChain fuel call id) :
    ∃ asks text, m'.chain? call id = some (c.settled asks text) := by
  have hm' := h.tidy hm
  obtain ⟨hid, r, hr, hcall, hmem⟩ := (chain?_eq_some_iff hm).mp hc
  -- It is enough to find the chain again, in a run of the same number.
  have hfound (asks : List Nat) (text : String) {r' : Run} (hr' : r' ∈ m'.runs)
      (hcall' : r'.call = r.call) (hc' : c.settled asks text ∈ r'.chains) :
      ∃ asks text, m'.chain? call id = some (c.settled asks text) :=
    ⟨asks, text, (chain?_eq_some_iff hm').mpr
      ⟨(c.settled_id asks text).trans hid, r', hr', hcall'.trans hcall, hc'⟩⟩
  have hsplit {R₁ R₂ : List Run} {s : Run} (hs : m.runs = R₁ ++ s :: R₂) (s' : Run) :
      r = s ∨ r ∈ R₁ ++ s' :: R₂ := by
    rw [hs] at hr
    simp only [List.mem_append, List.mem_cons] at hr ⊢
    tauto
  cases h with
  | host | tick | wakes | rests => exact ⟨[], "", hc⟩
  | join hs => exact hfound [] "" (List.mem_map_of_mem hr) rfl hmem
  | opens h => exact hfound [] "" (List.mem_append_left _ hr) rfl hmem
  | stop => exact hfound m.world.asks "" (List.mem_map_of_mem hr) rfl (List.mem_map_of_mem hmem)
  | @answer text ask rest ha =>
    exact hfound [ask] text (List.mem_map_of_mem hr) rfl (List.mem_map_of_mem hmem)
  | begins hs hp hw =>
    rcases hsplit hs _ with rfl | hr'
    · exact hfound [] "" List.mem_append_cons_self rfl (List.mem_append_left _ hmem)
    · exact hfound [] "" hr' rfl hmem
  | handles hs hp hh =>
    rcases hsplit hs _ with rfl | hr'
    · exact hfound [] "" List.mem_append_cons_self rfl (List.mem_append_left _ hmem)
    · exact hfound [] "" hr' rfl hmem
  | @resumes R₁ R₂ s l₁ l₂ d c' w' fuel hs hl hd hrun =>
    rcases hsplit hs _ with rfl | hr'
    · have hne : c ≠ d := by
        rintro rfl
        exact he fuel (by rw [hid, hcall])
      refine hfound [] "" (List.mem_map_of_mem List.mem_append_cons_self) rfl ?_
      rw [hl] at hmem
      simp only [List.mem_append, List.mem_cons] at hmem
      change c ∈ l₁ ++ l₂ ++ c'.toList
      simp only [List.mem_append]
      tauto
    · exact hfound [] "" (List.mem_map_of_mem hr') rfl hmem
  | @finishes R₁ R₂ s hs ho =>
    have hne : r ≠ s := by
      rintro rfl
      rw [(hm.runs r hr).chains_of_isOver ho] at hmem
      cases hmem
    have hr' : r ∈ R₁ ++ R₂ := by
      rw [hs] at hr
      simp only [List.mem_append, List.mem_cons] at hr ⊢
      tauto
    exact hfound m.world.asks "" (List.mem_map_of_mem hr') rfl (List.mem_map_of_mem hmem)

/-- A chain that has got a reply keeps it until it is resumed. -/
theorem after_chain? {m m' : Machine} (hm : m.Tidy) {call id : Nat} {c : Chain}
    (hc : m.chain? call id = some c) (hask : c.ask? = none) {es : List Event}
    (h : m.after es = some m') (hn : ∀ fuel, .resumeChain fuel call id ∉ es) :
    m'.chain? call id = some c := by
  refine after_induction (P := fun es m' => (∀ fuel, .resumeChain fuel call id ∉ es) →
    m'.chain? call id = some c) (fun _ => hc) ?_ h hn
  intro es m₁ e m₂ hb ih he hn
  simp only [List.mem_append, List.mem_singleton, not_or] at hn
  have hc₁ := ih fun fuel => (hn fuel).1
  rw [← chain?_asleep] at hc₁
  have htidy := hm.after hb
  obtain ⟨asks, text, hc₂⟩ := (next?_outcome htidy he).chain?_settled (tidy_asleep.mpr htidy) hc₁
    fun fuel he => (hn fuel).2 he.symm
  rw [chain?_asleep, Chain.settled_of_idle (by simp [hask])] at hc₂
  exact hc₂

/-- The chain has got the reply `text`, and its next resumption begins with taking it up: it is
bound if the run goes on, and ignored otherwise. -/
structure TakesUp (m : Machine) (call id : Nat) (c : Chain) (ask : Nat) (text : String) :
    Prop where
  holds : m.chain? call id = some { c with task := .wait (.reply ask (some text)) }
  resumes : ∃ scripts w, (m.world.running = true → m.world.Bound w c.sprite text) ∧
    (m.world.running = false → w = m.world) ∧
    ∀ fuel, (m.resumeChain (fuel + 1) call id).1.world =
        { ({ c with task := .resume }.run scripts fuel w).1 with sent := [] } ∧
      (m.resumeChain (fuel + 1) call id).1.chain? call id =
        ({ c with task := .resume }.run scripts fuel w).2

theorem takesUp {m : Machine} (h : m.Reachable) {call id : Nat} {c : Chain} {ask : Nat}
    {text : String}
    (hc : m.chain? call id = some { c with task := .wait (.reply ask (some text)) }) :
    m.TakesUp call id c ask text := by
  let replied : Chain := { c with task := .wait (.reply ask (some text)) }
  have ht : replied.task = .wait (.reply ask (some text)) := rfl
  obtain ⟨scripts, hrun⟩ := resumeChain_chain? h.tidy hc (Chain.canResume_of_reply? ht _)
  obtain ⟨-, r, hr, -, hmem⟩ := (chain?_eq_some_iff h.tidy).mp hc
  have hk := h.kept
  have hsettled : ask ∉ m.world.asks := by
    refine (hk.settled ask (List.mem_filterMap.mpr ⟨replied, ?_, rfl⟩)).1
    exact List.mem_flatMap.mpr ⟨r, hr, hmem⟩
  refine ⟨hc, scripts, m.world.afterReply c.sprite ask text, fun hr => ?_, fun hr => ?_,
    fun fuel => ?_⟩
  · refine World.afterReply_bound hr (fun p hp he => hsettled ?_) c.sprite text
    rw [← hk.prompts, ← he]
    exact List.mem_map_of_mem hp
  · rw [World.afterReply, hr, if_neg Bool.false_ne_true]
  · have hstep := Chain.run_of_reply? ht scripts fuel m.world
    have hafter := hrun (fuel + 1)
    rw [hstep] at hafter
    exact hafter

/-- The answer `text` goes to the oldest pending ask and to no other: the prompt in front is
taken away, and the chain that waits on it gets `text` and takes it up when it is resumed. -/
def AnswersOldest (m : Machine) (text : String) : Prop :=
  ∃ prompt rest call id c, m.world.stage.prompts = prompt :: rest ∧
    (m.answer text).1.world.stage = { m.world.stage with prompts := rest } ∧
    (∀ ask ∈ m.pending, prompt.id ≤ ask) ∧
    m.chain? call id = some c ∧ c.ask? = some prompt.id ∧
    repliesBy m (.obey (.answer text)) (m.answer text).1 = [(prompt.id, text)] ∧
    ∀ later m', (m.answer text).1.after later = some m' →
      (∀ fuel, .resumeChain fuel call id ∉ later) → m'.TakesUp call id c prompt.id text

theorem answer_prompts {m : Machine} (hk : m.world.Kept m.chains) {ask : Nat} {rest : List Nat}
    (ha : m.world.asks = ask :: rest) (text : String) :
    ∃ prompt left, m.world.stage.prompts = prompt :: left ∧ prompt.id = ask ∧
      (m.answer text).1.world.stage = { m.world.stage with prompts := left } := by
  have hprompts := hk.prompts
  have hinc := hk.increasing
  rw [ha] at hprompts hinc
  obtain ⟨prompt, left, hp, hid, hleft⟩ := List.map_eq_cons_iff.mp hprompts
  have hstage : (m.answer text).1.world.stage =
      { m.world.stage with prompts := m.world.stage.prompts.filter (·.id != ask) } := by
    simp only [answer, ha]
    rfl
  have hfilter : (prompt :: left).filter (·.id != ask) = left := by
    rw [List.filter_cons_of_neg (by simp [hid]), List.filter_eq_self]
    intro p hmem
    have hlt := (List.pairwise_cons.mp hinc).1 p.id (hleft ▸ List.mem_map_of_mem hmem)
    simp only [bne_iff_ne]
    omega
  exact ⟨prompt, left, hp, hid, by rw [hstage, hp, hfilter]⟩

theorem answer_chain? {m : Machine} (h : m.Reachable) {ask : Nat} {rest : List Nat}
    (ha : m.world.asks = ask :: rest) (text : String) :
    ∃ call id c, m.chain? call id = some c ∧ c.ask? = some ask ∧
      (m.answer text).1.chain? call id =
        some { c with task := .wait (.reply ask (some text)) } := by
  have hpending : ask ∈ m.chains.filterMap Chain.ask? :=
    h.kept.waiting.mem_iff.mpr (by rw [ha]; exact List.mem_cons_self)
  obtain ⟨c, hc, hask⟩ := List.mem_filterMap.mp hpending
  obtain ⟨r, hr, hmem⟩ := List.mem_flatMap.mp hc
  refine ⟨r.call, c.id, c, chain?_of_mem h.tidy hr hmem, hask, ?_⟩
  have hnext : m.next? (.obey (.answer text)) = some (m.answer text).1 := rfl
  have hreceive : c.receive ask text = { c with task := .wait (.reply ask (some text)) } :=
    if_pos (Chain.awaits_iff.mpr hask)
  have hrun : r.receive ask text ∈ (m.answer text).1.runs := by
    simp only [answer, ha]
    exact List.mem_map_of_mem hr
  refine (chain?_eq_some_iff (h.next hnext).tidy).mpr ⟨rfl, _, hrun, rfl, ?_⟩
  rw [← hreceive]
  exact List.mem_map_of_mem hmem

theorem answer_replies {m : Machine} (h : m.Reachable) {ask : Nat} {rest : List Nat}
    (ha : m.world.asks = ask :: rest) (text : String) :
    repliesBy m (.obey (.answer text)) (m.answer text).1 = [(ask, text)] := by
  have hnext : m.next? (.obey (.answer text)) = some (m.answer text).1 := rfl
  have hasks : (m.answer text).1.world.asks = rest := by
    simp only [answer, ha]
    rfl
  cases next?_asked h hnext with
  | keeps hh hk hl hr =>
    rw [hasks, ha] at hk
    exact absurd hk.symm (List.cons_ne_self _ _)
  | answers hm ha' hl hr =>
    rw [ha] at hm
    cases hm
    exact hr
  | halts hh ha' hl hr => cases hh

theorem answersOldest {m : Machine} (h : m.Reachable) {ask : Nat} {rest : List Nat}
    (ha : m.world.asks = ask :: rest) (text : String) : m.AnswersOldest text := by
  have hk := h.kept
  obtain ⟨prompt, left, hp, rfl, hstage⟩ := answer_prompts hk ha text
  obtain ⟨call, id, c, hc, hask, hreplied⟩ := answer_chain? h ha text
  have hnext : m.next? (.obey (.answer text)) = some (m.answer text).1 := rfl
  have hm' := h.next hnext
  refine ⟨prompt, left, call, id, c, hp, hstage, fun a hmem => ?_, hc, hask,
    answer_replies h ha text, fun later m' hlater hn => ?_⟩
  · have hmem := hk.waiting.mem_iff.mp hmem
    have hinc := hk.increasing
    rw [ha] at hmem hinc
    rcases List.mem_cons.mp hmem with rfl | hmem
    · exact Nat.le_refl _
    · exact Nat.le_of_lt ((List.pairwise_cons.mp hinc).1 a hmem)
  · exact takesUp (hm'.after hlater) (after_chain? hm'.tidy hreplied rfl hlater hn)

/-- The event puts no ask, or it lets a chain put one, which gets the next number. -/
def PutsInOrder (m : Machine) (e : Event) (m' : Machine) : Prop :=
  m'.world.lastAsk = m.world.lastAsk ∨
    m'.world.lastAsk = m.world.lastAsk + 1 ∧ ∃ fuel call id c, e = .resumeChain fuel call id ∧
      m'.chain? call id = some c ∧ c.ask? = some m'.world.lastAsk

/-- Asks are numbered in the order in which they are put, and each is pending or has got one
reply. Halts reply to every pending ask with the empty text, answers to the oldest, and nothing
else replies. -/
theorem answers_first_in_first_out {options : Options} {services : Services} {es : List Event}
    {m : Machine} (h : (create .empty options services).after es = some m) :
    (((create .empty options services).gather repliesBy es).map Prod.fst ++ m.pending).Perm
        (List.range' 1 m.world.lastAsk) ∧
      (∀ e m', m.next? e = some m' → m.PutsInOrder e m' ∧
        (e.isHalt = true →
          repliesBy m e m' = m.pending.map (fun ask => (ask, "")) ∧ m'.pending = []) ∧
        (e.isHalt = false → (∀ text, e ≠ .obey (.answer text)) → repliesBy m e m' = [])) ∧
      ∀ text, ((m.answer text).2 = false ↔ m.pending = []) ∧
        ((m.answer text).2 = false → (m.answer text).1 = m) ∧
        ((m.answer text).2 = true → m.AnswersOldest text) := by
  have hm : m.Reachable := ⟨options, services, es, h⟩
  have hwaiting := hm.kept.waiting
  refine ⟨(hwaiting.append_left _).trans (replied_or_pending h), fun e m' he => ?_, fun text => ?_⟩
  · have hm' := hm.next he
    cases next?_asked hm he with
    | keeps hh ha hl hr =>
      refine ⟨.inl hl, fun hhalt => ?_, fun _ _ => hr⟩
      rw [hh] at hhalt
      cases hhalt
    | puts ha hl hr hc hask =>
      refine ⟨.inr ⟨hl, _, _, _, _, rfl, hc, hl ▸ hask⟩, fun hhalt => ?_, fun _ _ => hr⟩
      cases hhalt
    | answers hasks ha hl hr =>
      refine ⟨.inl hl, fun hhalt => ?_, fun _ hn => absurd rfl (hn _)⟩
      cases hhalt
    | halts hh ha hl hr =>
      refine ⟨.inl hl, fun _ => ⟨hr, ?_⟩, fun hgo => ?_⟩
      · have hnone := hm'.kept.waiting
        rw [ha] at hnone
        exact hnone.eq_nil
      · rw [hh] at hgo
        cases hgo
  · cases ha : m.world.asks with
    | nil =>
      rw [ha] at hwaiting
      have hanswer : m.answer text = (m, false) := by simp only [answer, ha]
      rw [hanswer]
      refine ⟨iff_of_true rfl hwaiting.eq_nil, fun _ => rfl, fun htaken => ?_⟩
      cases htaken
    | cons ask rest =>
      rw [ha] at hwaiting
      have hanswer : (m.answer text).2 = true := by simp only [answer, ha]
      have hsome : m.pending ≠ [] := fun hnil => by
        rw [pending] at hnil
        rw [hnil] at hwaiting
        exact absurd hwaiting.symm.eq_nil (List.cons_ne_nil _ _)
      refine ⟨iff_of_false (by simp [hanswer]) hsome, ?_, fun _ => answersOldest hm ha text⟩
      intro hfalse
      rw [hanswer] at hfalse
      cases hfalse

/-- The second chain asks first, so it gets the answer. -/
theorem answers_first_in_first_out_two_asks :
    ∃ (es : List Event) (m : Machine), (create .empty {} {}).after es = some m ∧
      m.pending = [1, 2] ∧ (m.answer "blue").2 = true ∧
      ((m.answer "blue").1.chain? 0 2).bind Chain.reply? = some (1, "blue") ∧
      m.AnswersOldest "blue" ∧
      repliesBy m (.obey .stop) m.stop = [(1, ""), (2, "")] ∧ m.stop.pending = [] := by
  let es : List Event :=
    [.edit (.addSprite "🐱"), .edit (.editScript "sprite-1" fun _ => .ok (twoQuestions, ())),
      .obey .flag, .advance 50, .beginRun 0, .resumeChain 9 0 2, .resumeChain 9 0 1]
  have he : ((create .empty {} {}).after es).map (fun m =>
      (m.pending, (m.answer "blue").2, ((m.answer "blue").1.chain? 0 2).bind Chain.reply?)) =
      some ([1, 2], true, some (1, "blue")) := by
    decide +kernel
  obtain ⟨m, hm, hw⟩ := Option.map_eq_some_iff.mp he
  simp only [Prod.mk.injEq] at hw
  obtain ⟨hpending, htaken, hreply⟩ := hw
  obtain ⟨-, hevents, hanswer⟩ := answers_first_in_first_out hm
  obtain ⟨-, hstop, -⟩ := hevents (.obey .stop) m.stop rfl
  rw [hpending] at hstop
  obtain ⟨hreplies, hnone⟩ := hstop rfl
  exact ⟨es, m, hm, hpending, htaken, hreply, (hanswer "blue").2.2 htaken, hreplies, hnone⟩

end Machine

end BlockScript

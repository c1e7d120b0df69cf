import BlockScript.Proofs.Run.Private

/-! Rotas. A run of private chains is a line of ready chains, of which the first takes a step at a
time, and a line of waiting ones, of which the next due are woken when no chain is ready. What the
chains of one sprite do in it is what they do in a rota of their own. -/

namespace BlockScript

namespace Chain

def isDue (time : Nat) (c : Chain) : Bool :=
  c.due?.any (· ≤ time)

def nameless (c : Chain) : Chain :=
  { c with id := 0 }

/-- The chains of a sprite, without their numbers. -/
def ofSprite (sprite : String) (l : List Chain) : List Chain :=
  (l.filter (·.sprite == sprite)).map nameless

theorem step_renamed (scripts : Table Script) (w : World) (c : Chain) (id : Nat) :
    step scripts w { c with id := id } =
      ((c.step scripts w).1, (c.step scripts w).2.map fun d => { d with id := id }) := by
  obtain ⟨old, sprite, frames, task⟩ := c
  cases task with
  | start blocks hat =>
    simp only [step]
    split <;> rfl
  | block blocks b depth =>
    simp only [step]
    split <;> rfl
  | body blocks b depth =>
    simp only [step]
    split
    · rfl
    · split <;> rfl
  | round =>
    simp only [step]
    split
    · split <;> rfl
    · rfl
  | look b =>
    simp only [step]
    split <;> rfl
  | pause duration purpose =>
    simp only [step]
    split <;> rfl
  | resume =>
    simp only [step]
    split <;> rfl
  | wait wait =>
    cases wait with
    | pause due purpose =>
      simp only [step]
      split <;> rfl
    | reply ask answer => cases answer <;> rfl

theorem ofSprite_cons_of_eq {sprite : String} {c : Chain} (h : c.sprite = sprite)
    (l : List Chain) : ofSprite sprite (c :: l) = c.nameless :: ofSprite sprite l := by
  rw [ofSprite, List.filter_cons_of_pos (by simpa using h), List.map_cons]
  rfl

theorem ofSprite_cons_of_ne {sprite : String} {c : Chain} (h : c.sprite ≠ sprite)
    (l : List Chain) : ofSprite sprite (c :: l) = ofSprite sprite l := by
  rw [ofSprite, List.filter_cons_of_neg (by simpa using h)]
  rfl

theorem ofSprite_append (sprite : String) (l l' : List Chain) :
    ofSprite sprite (l ++ l') = ofSprite sprite l ++ ofSprite sprite l' := by
  rw [ofSprite, List.filter_append, List.map_append]
  rfl

theorem ofSprite_filter {p : Chain → Bool} (hp : ∀ c, p c.nameless = p c) (sprite : String)
    (l : List Chain) : ofSprite sprite (l.filter p) = (ofSprite sprite l).filter p := by
  have hcomp : p ∘ nameless = p := funext hp
  rw [ofSprite, ofSprite, List.filter_map, hcomp, List.filter_comm]

theorem mem_ofSprite_iff {sprite : String} {l : List Chain} {c : Chain} :
    c ∈ ofSprite sprite l ↔ ∃ d ∈ l, d.sprite = sprite ∧ d.nameless = c := by
  simp [ofSprite, and_assoc]

theorem map_nameless_filter {p : Chain → Bool} (hp : ∀ c, p c.nameless = p c) (l : List Chain) :
    (l.filter p).map nameless = (l.map nameless).filter p := by
  have hcomp : p ∘ nameless = p := funext hp
  rw [List.filter_map, hcomp]

theorem eq_renamed {c d : Chain} (h : c.nameless = d.nameless) : d = { c with id := d.id } := by
  obtain ⟨id, sprite, frames, task⟩ := c
  obtain ⟨id', sprite', frames', task'⟩ := d
  cases h
  rfl

end Chain

structure Rota where
  world : World
  ready : List Chain
  waiting : List Chain

namespace Rota

/-- The rota after the first ready chain has taken a step: it goes on, waits or has ended. -/
def put (w : World) (ready waiting : List Chain) : Option Chain → Rota
  | none => ⟨w, ready, waiting⟩
  | some c => if c.isWaiting then ⟨w, ready, waiting ++ [c]⟩ else ⟨w, c :: ready, waiting⟩

def turn (scripts : Table Script) (a : Rota) : Rota :=
  match a.ready with
  | c :: ready => put (c.step scripts a.world).1 ready a.waiting (c.step scripts a.world).2
  | [] =>
    match (a.waiting.filterMap (·.due?)).min? with
    | none => a
    | some time =>
      ⟨{ a.world with now := time }, a.waiting.filter (·.isDue time),
        a.waiting.filter fun c => !c.isDue time⟩

structure IsOver (a : Rota) : Prop where
  ready : a.ready = []
  waiting : a.waiting = []

theorem IsOver.turn {a : Rota} (h : a.IsOver) (scripts : Table Script) : a.turn scripts = a := by
  rw [Rota.turn, h.ready, h.waiting]
  rfl

theorem IsOver.turns {a : Rota} (h : a.IsOver) (scripts : Table Script) (n : Nat) :
    (Rota.turn scripts)^[n] a = a :=
  Function.iterate_fixed (h.turn scripts) n

/-- The end of a rota is the same, however many turns are taken. -/
theorem turns_eq_of_isOver {scripts : Table Script} {a : Rota} {n k : Nat}
    (hn : ((turn scripts)^[n] a).IsOver) (hk : ((turn scripts)^[k] a).IsOver) :
    (turn scripts)^[n] a = (turn scripts)^[k] a := by
  rcases Nat.le_total n k with h | h
  · obtain ⟨i, rfl⟩ := Nat.exists_eq_add_of_le' h
    rw [Function.iterate_add_apply, hn.turns]
  · obtain ⟨i, rfl⟩ := Nat.exists_eq_add_of_le' h
    rw [Function.iterate_add_apply, hk.turns]

structure Valid (a : Rota) : Prop where
  running : a.world.running = true
  sent : a.world.sent = []
  chains : ∀ c ∈ a.ready ++ a.waiting, c.Private
  ready : ∀ c ∈ a.ready, c.canResume a.world = true
  waiting : ∀ c ∈ a.waiting, ∀ due ∈ c.due?, a.world.now < due

/-- A step of the first ready chain, for a rota that is valid. -/
theorem Valid.step {w : World} {c : Chain} {ready waiting : List Chain}
    (h : Valid ⟨w, c :: ready, waiting⟩) (scripts : Table Script) :
    ∃ change dice log next,
      c.step scripts w = (w.moved c.sprite change dice log, next) ∧
      ∀ d ∈ next, d.Private ∧ d.sprite = c.sprite ∧ ∀ due ∈ d.due?, w.now < due := by
  have hc : c.Private := h.chains c List.mem_cons_self
  obtain ⟨change, dice, log, -, -, next, hs, -, hn⟩ :=
    Chain.step_private hc (.refl c.sprite w) h.running h.running rfl scripts scripts
  refine ⟨change, dice, log, next, hs, fun d hd => ⟨(hn d hd).1, ?_, (hn d hd).2⟩⟩
  have hd' : (c.step scripts w).2 = some d := by
    rw [hs]
    exact hd
  exact (Chain.step_id hd').2

theorem Valid.put {w : World} {c : Chain} {ready waiting : List Chain}
    (h : Valid ⟨w, c :: ready, waiting⟩) {next : Option Chain}
    (hn : ∀ d ∈ next, d.Private ∧ d.sprite = c.sprite ∧ ∀ due ∈ d.due?, w.now < due)
    (change : Option (Sprite → Sprite)) (dice : Dice) (log : Array (Nat × Record)) :
    Valid (put (w.moved c.sprite change dice log) ready waiting next) := by
  have hchains : ∀ d ∈ ready ++ waiting, d.Private := fun d hd =>
    h.chains d (List.mem_cons_of_mem c hd)
  have hready : ∀ d ∈ ready, d.canResume (w.moved c.sprite change dice log) = true := fun d hd =>
    h.ready d (List.mem_cons_of_mem c hd)
  cases next with
  | none => exact ⟨h.running, h.sent, hchains, hready, h.waiting⟩
  | some d =>
    obtain ⟨hd, -, hdue⟩ := hn d rfl
    rw [Rota.put]
    by_cases hw : d.isWaiting = true
    · rw [if_pos hw]
      refine ⟨h.running, h.sent, ?_, hready, ?_⟩
      · rw [← List.append_assoc, List.forall_mem_append]
        exact ⟨hchains, by simpa using hd⟩
      · rw [List.forall_mem_append]
        refine ⟨h.waiting, fun e he => ?_⟩
        rw [List.mem_singleton.mp he]
        exact hdue
    · rw [if_neg hw]
      refine ⟨h.running, h.sent, List.forall_mem_cons.mpr ⟨hd, hchains⟩,
        List.forall_mem_cons.mpr ⟨?_, hready⟩, h.waiting⟩
      unfold Chain.canResume
      split
      · rename_i ht
        simp [Chain.isWaiting, ht] at hw
      · rfl

theorem Valid.wake {w : World} {waiting : List Chain} (h : Valid ⟨w, [], waiting⟩) (time : Nat) :
    Valid ⟨{ w with now := time }, waiting.filter (·.isDue time),
      waiting.filter fun c => !c.isDue time⟩ := by
  refine ⟨h.running, h.sent, ?_, ?_, ?_⟩
  · rw [List.forall_mem_append]
    exact ⟨fun c hc => h.chains c (List.mem_of_mem_filter hc),
      fun c hc => h.chains c (List.mem_of_mem_filter hc)⟩
  · intro c hc
    have hdue := (List.mem_filter.mp hc).2
    unfold Chain.isDue Chain.due? at hdue
    split at hdue
    · rename_i due purpose ht
      simp only [Chain.canResume, ht, World.isOver, hdue, Bool.or_true, Bool.true_or]
    · cases hdue
  · intro c hc due hd
    have hdue := (List.mem_filter.mp hc).2
    simp only [Chain.isDue, Option.mem_def.mp hd, Option.any_some, Bool.not_eq_true',
      decide_eq_false_iff_not, Nat.not_le] at hdue
    exact hdue

theorem Valid.turn {a : Rota} (h : a.Valid) (scripts : Table Script) : (a.turn scripts).Valid := by
  obtain ⟨w, ready, waiting⟩ := a
  cases ready with
  | cons c ready =>
    obtain ⟨change, dice, log, next, hs, hn⟩ := h.step scripts
    rw [Rota.turn]
    simp only [hs]
    exact h.put hn change dice log
  | nil =>
    simp only [Rota.turn]
    split
    · exact h
    · exact h.wake _

theorem Valid.turns {a : Rota} (h : a.Valid) (scripts : Table Script) (n : Nat) :
    ((Rota.turn scripts)^[n] a).Valid := by
  induction n with
  | zero => exact h
  | succ n ih =>
    rw [Function.iterate_succ_apply']
    exact ih.turn scripts

/-- `b` is what `a` shows of one sprite: the chains of the sprite in their order, and a world that
looks the same to them. The clock of `b` may be behind while none of them is ready. -/
structure Shows (sprite : String) (a b : Rota) : Prop where
  world : a.world.Alike sprite b.world
  ready : Chain.ofSprite sprite a.ready = b.ready.map Chain.nameless
  waiting : Chain.ofSprite sprite a.waiting = b.waiting.map Chain.nameless
  behind : b.world.now ≤ a.world.now
  meets : b.ready ≠ [] → b.world.now = a.world.now

theorem Shows.put_own {sprite : String} {w w' : World} {ready ready' waiting waiting' : List Chain}
    (hw : w.Alike sprite w') (hnow : w'.now = w.now)
    (hready : Chain.ofSprite sprite ready = ready'.map Chain.nameless)
    (hwaiting : Chain.ofSprite sprite waiting = waiting'.map Chain.nameless)
    {next : Option Chain} (hn : ∀ d ∈ next, d.sprite = sprite) (id : Nat) :
    Shows sprite (put w ready waiting next)
      (put w' ready' waiting' (next.map fun d => { d with id := id })) := by
  cases next with
  | none => exact ⟨hw, hready, hwaiting, hnow.le, fun _ => hnow⟩
  | some d =>
    have hd := hn d rfl
    have hrenamed : Chain.isWaiting { d with id := id } = d.isWaiting := rfl
    simp only [put, Option.map_some, hrenamed]
    by_cases h : d.isWaiting = true
    · rw [if_pos h, if_pos h]
      refine ⟨hw, hready, ?_, hnow.le, fun _ => hnow⟩
      rw [Chain.ofSprite_append, Chain.ofSprite_cons_of_eq hd, List.map_append, hwaiting]
      rfl
    · rw [if_neg h, if_neg h]
      refine ⟨hw, ?_, hwaiting, hnow.le, fun _ => hnow⟩
      rw [Chain.ofSprite_cons_of_eq hd, List.map_cons, hready]
      rfl

theorem Shows.put_other {sprite : String} {w : World} {ready waiting : List Chain} {b : Rota}
    (h : Shows sprite ⟨w, ready, waiting⟩ b) {next : Option Chain}
    (hn : ∀ d ∈ next, d.sprite ≠ sprite) : Shows sprite (put w ready waiting next) b := by
  cases next with
  | none => exact h
  | some d =>
    have hd := hn d rfl
    simp only [put]
    by_cases hw : d.isWaiting = true
    · rw [if_pos hw]
      refine ⟨h.world, h.ready, ?_, h.behind, h.meets⟩
      rw [Chain.ofSprite_append, Chain.ofSprite_cons_of_ne hd, ← h.waiting]
      exact List.append_nil _
    · rw [if_neg hw]
      refine ⟨h.world, ?_, h.waiting, h.behind, h.meets⟩
      rw [Chain.ofSprite_cons_of_ne hd]
      exact h.ready

/-- A step of a chain of the sprite is a step of its chain in `b`, and a step of another chain does
not show. -/
theorem Shows.step {sprite : String} {w : World} {c : Chain} {ready waiting : List Chain}
    {b : Rota} (h : Shows sprite ⟨w, c :: ready, waiting⟩ b) (ha : Valid ⟨w, c :: ready, waiting⟩)
    (hb : b.Valid) (scripts scripts' : Table Script) :
    Shows sprite (turn scripts ⟨w, c :: ready, waiting⟩) b ∨
      Shows sprite (turn scripts ⟨w, c :: ready, waiting⟩) (b.turn scripts') := by
  obtain ⟨v, ready', waiting'⟩ := b
  have hready := h.ready
  by_cases hc : c.sprite = sprite
  · right
    subst hc
    rw [Chain.ofSprite_cons_of_eq rfl] at hready
    cases ready' with
    | nil => cases hready
    | cons d ready' =>
      obtain ⟨hname, hready⟩ := List.cons.inj hready
      have hd : d = { c with id := d.id } := Chain.eq_renamed hname
      have hnow := h.meets (List.cons_ne_nil d ready')
      have hworld : w.Alike c.sprite v := h.world
      have hprivate : c.Private := ha.chains c List.mem_cons_self
      obtain ⟨change, dice, log, dice', log', next, hs, hs', -⟩ :=
        Chain.step_private hprivate hworld ha.running hb.running hnow scripts scripts'
      have hrenamed := Chain.step_renamed scripts' v c d.id
      rw [← hd, hs'] at hrenamed
      simp only [turn, hs, hrenamed]
      refine .put_own (hworld.moved ..) hnow hready h.waiting ?_ d.id
      intro e he
      have hstep : (c.step scripts w).2 = some e := by
        rw [hs]
        exact he
      exact (Chain.step_id hstep).2
  · left
    rw [Chain.ofSprite_cons_of_ne hc] at hready
    obtain ⟨change, dice, log, next, hs, hn⟩ := ha.step scripts
    simp only [turn, hs]
    apply Shows.put_other
    · exact ⟨h.world.moved_other hc change dice log, hready, h.waiting, h.behind, h.meets⟩
    · intro d hd
      rw [(hn d hd).2.1]
      exact hc

/-- When time goes on, the chains of the sprite that are woken are the ones that are woken in `b`;
if there are none, nothing shows. -/
theorem Shows.wake {sprite : String} {w : World} {waiting : List Chain} {b : Rota}
    (h : Shows sprite ⟨w, [], waiting⟩ b) (ha : Valid ⟨w, [], waiting⟩)
    (scripts scripts' : Table Script) :
    Shows sprite (turn scripts ⟨w, [], waiting⟩) b ∨
      Shows sprite (turn scripts ⟨w, [], waiting⟩) (b.turn scripts') := by
  obtain ⟨v, ready', waiting'⟩ := b
  obtain rfl : ready' = [] := List.map_eq_nil_iff.mp h.ready.symm
  have hdue (time : Nat) (c : Chain) : c.nameless.isDue time = c.isDue time := rfl
  have hnot (time : Nat) (c : Chain) : (!c.nameless.isDue time) = !c.isDue time := rfl
  cases hmin : (waiting.filterMap (·.due?)).min? with
  | none =>
    left
    simp only [turn, hmin]
    exact h
  | some time =>
    obtain ⟨hmem, hleast⟩ := List.min?_eq_some_iff.mp hmin
    obtain ⟨c, hc, htime⟩ := List.mem_filterMap.mp hmem
    have hlater : w.now < time := ha.waiting c hc time htime
    have hleast' : ∀ due ∈ waiting'.filterMap (·.due?), time ≤ due := by
      intro due hd
      obtain ⟨d, hd, hdue⟩ := List.mem_filterMap.mp hd
      have hshown : d.nameless ∈ Chain.ofSprite sprite waiting := by
        rw [h.waiting]
        exact List.mem_map_of_mem hd
      obtain ⟨e, he, -, hname⟩ := Chain.mem_ofSprite_iff.mp hshown
      have hsame : e.nameless.due? = d.nameless.due? := congrArg Chain.due? hname
      exact hleast due (List.mem_filterMap.mpr ⟨e, he, hsame.trans hdue⟩)
    have hworld : World.Alike sprite { w with now := time } v :=
      ⟨h.world.sprite, h.world.input, h.world.options⟩
    simp only [turn, hmin]
    by_cases hany : ∃ d ∈ waiting', d.isDue time = true
    · right
      obtain ⟨d, hd, hdue'⟩ := hany
      have htime' : d.due? = some time := by
        cases hd' : d.due? with
        | none =>
          rw [Chain.isDue, hd'] at hdue'
          cases hdue'
        | some due =>
          have hle := hleast' due (List.mem_filterMap.mpr ⟨d, hd, hd'⟩)
          have hge : due ≤ time := by simpa [Chain.isDue, hd'] using hdue'
          rw [Nat.le_antisymm hge hle]
      have hmin' : (waiting'.filterMap (·.due?)).min? = some time :=
        List.min?_eq_some_iff.mpr ⟨List.mem_filterMap.mpr ⟨d, hd, htime'⟩, hleast'⟩
      simp only [hmin']
      refine ⟨⟨hworld.sprite, hworld.input, hworld.options⟩, ?_, ?_, le_rfl, fun _ => rfl⟩
      · rw [Chain.ofSprite_filter (hdue time), Chain.map_nameless_filter (hdue time), h.waiting]
      · rw [Chain.ofSprite_filter (hnot time), Chain.map_nameless_filter (hnot time), h.waiting]
    · left
      refine ⟨hworld, ?_, ?_, h.behind.trans hlater.le, fun hne => absurd rfl hne⟩
      · have hnone : waiting'.filter (·.isDue time) = [] :=
          List.filter_eq_nil_iff.mpr fun d hd hdue' => hany ⟨d, hd, hdue'⟩
        rw [Chain.ofSprite_filter (hdue time), h.waiting, ← Chain.map_nameless_filter (hdue time),
          hnone]
      · have hall : waiting'.filter (!·.isDue time) = waiting' :=
          List.filter_eq_self.mpr fun d hd => by
            simpa using fun hdue' => hany ⟨d, hd, hdue'⟩
        rw [Chain.ofSprite_filter (hnot time), h.waiting, ← Chain.map_nameless_filter (hnot time),
          hall]

theorem Shows.turn {sprite : String} {a b : Rota} (h : Shows sprite a b) (ha : a.Valid)
    (hb : b.Valid) (scripts scripts' : Table Script) :
    Shows sprite (a.turn scripts) b ∨ Shows sprite (a.turn scripts) (b.turn scripts') := by
  obtain ⟨w, ready, waiting⟩ := a
  cases ready with
  | cons c ready => exact h.step ha hb scripts scripts'
  | nil => exact h.wake ha scripts scripts'

theorem Shows.turns {sprite : String} {a b : Rota} (h : Shows sprite a b) (ha : a.Valid)
    (hb : b.Valid) (scripts scripts' : Table Script) (n : Nat) :
    ∃ k, Shows sprite ((Rota.turn scripts)^[n] a) ((Rota.turn scripts')^[k] b) := by
  induction n with
  | zero => exact ⟨0, h⟩
  | succ n ih =>
    obtain ⟨k, hk⟩ := ih
    rw [Function.iterate_succ_apply']
    rcases hk.turn (ha.turns scripts n) (hb.turns scripts' k) scripts scripts' with hs | hs
    · exact ⟨k, hs⟩
    · refine ⟨k + 1, ?_⟩
      rw [Function.iterate_succ_apply']
      exact hs

theorem Shows.isOver {sprite : String} {a b : Rota} (h : Shows sprite a b) (ha : a.IsOver) :
    b.IsOver := by
  have hready := h.ready
  have hwaiting := h.waiting
  rw [ha.ready] at hready
  rw [ha.waiting] at hwaiting
  exact ⟨List.map_eq_nil_iff.mp hready.symm, List.map_eq_nil_iff.mp hwaiting.symm⟩

end Rota

end BlockScript

import BlockScript.Proofs.Run.Instant
import BlockScript.Proofs.Run.Session

/-! Sprites that share nothing. In a project of private blocks, each sprite ends a run as it ends
the run of a project in which all other sprites do nothing. -/

namespace BlockScript

def Project.isPrivate (p : Project) : Bool :=
  p.scripts.all fun s => s.2.blocks.all Block.isPrivate

/-- The project with the scripts of all other sprites emptied. -/
def Project.alone (p : Project) (sprite : String) : Project :=
  { p with scripts := p.scripts.map fun s => if s.1 = sprite then s else (s.1, .empty) }

theorem Project.isPrivate_iff {p : Project} :
    p.isPrivate = true ↔ ∀ s ∈ p.scripts, ∀ b ∈ s.2.blocks, b.isPrivate = true := by
  simp [isPrivate]

theorem Project.alone_isPrivate {p : Project} (h : p.isPrivate = true) (sprite : String) :
    (p.alone sprite).isPrivate = true := by
  rw [isPrivate_iff] at h ⊢
  intro s hs b hb
  obtain ⟨s', hs', rfl⟩ := List.mem_map.mp hs
  by_cases hsprite : s'.1 = sprite
  · rw [if_pos hsprite] at hb
    exact h s' hs' b hb
  · rw [if_neg hsprite] at hb
    cases hb

theorem Trigger.hats_alone (t : Trigger) (p : Project) (sprite : String) :
    t.hats (p.alone sprite).scripts = (t.hats p.scripts).filter (·.1 == sprite) := by
  rw [hats, hats, Project.alone, List.filter_flatMap, List.flatMap_map]
  refine List.flatMap_congr fun s _ => ?_
  by_cases hsprite : s.1 = sprite
  · rw [if_pos hsprite, List.filter_eq_self.mpr]
    intro hat hmem
    obtain ⟨b, -, rfl⟩ := List.mem_map.mp hmem
    simpa using hsprite
  · rw [if_neg hsprite, List.filter_eq_nil_iff.mpr]
    · rfl
    · intro hat hmem
      obtain ⟨b, -, rfl⟩ := List.mem_map.mp hmem
      simpa using hsprite

namespace Chain

theorem map_nameless_ofHats (last : Nat) (hats : List (String × Script × Block)) :
    (ofHats last hats).map nameless =
      hats.map fun hat => ⟨0, hat.1, [], .start hat.2.1.blocks hat.2.2⟩ := by
  induction hats generalizing last with
  | nil => rfl
  | cons hat hats ih =>
    rw [ofHats, List.map_cons, List.map_cons, ih]
    rfl

theorem ofSprite_ofHats (sprite : String) (last last' : Nat)
    (hats : List (String × Script × Block)) :
    ofSprite sprite (ofHats last hats) =
      (ofHats last' (hats.filter (·.1 == sprite))).map nameless := by
  rw [map_nameless_ofHats]
  induction hats generalizing last with
  | nil => rfl
  | cons hat hats ih =>
    obtain ⟨id, script, hat⟩ := hat
    rw [ofHats]
    by_cases h : id = sprite
    · rw [ofSprite_cons_of_eq h, List.filter_cons_of_pos (by simpa using h), List.map_cons, ih]
      rfl
    · rw [ofSprite_cons_of_ne h, List.filter_cons_of_neg (by simpa using h), ih]

end Chain

theorem Rota.exists_limit {scripts : Table Script} {a : Rota} {last : Nat}
    (h : ((turn scripts)^[last] a).IsOver) :
    ∃ limit, ∀ n, ((turn scripts)^[n] a).world.now < limit := by
  let clock (n : Nat) : Nat := ((turn scripts)^[n] a).world.now
  have hclock (n : Nat) (hn : n ≤ last) : clock n < (Finset.range (last + 1)).sup clock + 1 :=
    Nat.lt_succ_of_le (Finset.le_sup (Finset.mem_range.mpr (Nat.lt_succ_of_le hn)))
  refine ⟨(Finset.range (last + 1)).sup clock + 1, fun n => ?_⟩
  rcases Nat.le_total n last with hn | hn
  · exact hclock n hn
  · rw [turns_eq_of_isOver (isOver_of_le h hn) h]
    exact hclock last le_rfl

namespace Session

/-- The first time after zero at which either the limit or a delay is over. -/
def firstTime (limit delay : Nat) : Nat :=
  if limit = 0 then delay else min limit delay

theorem firstTime_of_lt {limit delay : Nat} (h : delay < limit) : firstTime limit delay = delay := by
  unfold firstTime
  split <;> omega

theorem firstTime_eq {limit delay : Nat} (h : ¬ limit ≤ firstTime limit delay) :
    firstTime limit delay = delay := by
  have hdelay : delay < limit := by
    unfold firstTime at h
    split at h <;> omega
  exact firstTime_of_lt hdelay

/-- The session of a machine when no command is left and the limit was not hit. -/
def undisturbed (limit : Nat) (replies : Array (Nat × Reply)) (m : Machine) : Session :=
  ⟨m, [], limit, false, replies⟩

theorem undisturbed_ensue {m : Machine} {limit : Nat} (h : limit ≤ m.world.now → m.runs = [])
    (replies : Array (Nat × Reply)) (fuel : Nat) :
    (undisturbed limit replies m).ensue fuel = undisturbed limit replies (m.settle fuel fuel) :=
  ensue_of_early (s := undisturbed limit replies m) h fuel

theorem runs_of_undisturbed {m : Machine} {limit fuel instants : Nat}
    {replies : Array (Nat × Reply)}
    (h : ((undisturbed limit replies m).ensue fuel).concludes (completes fuel instants) = true)
    (hlate : limit ≤ m.world.now) : m.runs = [] :=
  runs_of_concludes (s := undisturbed limit replies m) rfl h hlate

end Session

namespace Project

/-- A run of the project that the flag starts and nothing else disturbs returns, and it leaves the
machine `final`. -/
def FlagRun (p : Project) (options : Options) (services : Services) (final : Machine) : Prop :=
  ∃ fuel limit,
    (Session.opening (.create p options services) [(0, .flag)] limit).completes fuel fuel = true ∧
    (Session.play fuel (.create p options services) [(0, .flag)] limit).machine = final

section

variable (p : Project) (options : Options) (services : Services)

/-- The machine at `time`, if the flag was clicked at zero and the run has not begun. -/
def flagged (time : Nat) : Machine :=
  ((Machine.create p options services).rewound.start 0 .flag).mapWorld fun w =>
    { w with now := time }

/-- The rota by which the run of the flag begins. -/
def rota : Rota where
  world := (p.flagged options services options.startDelay).world.withStarts
    (Trigger.flag.hats p.scripts)
  ready := Chain.ofHats 0 (Trigger.flag.hats p.scripts)
  waiting := []

theorem flagged_runs (time : Nat) :
    (p.flagged options services time).runs =
      [⟨0, p.scripts, .flag, .starting options.startDelay, [], [], []⟩] :=
  congrArg (fun due => [(⟨0, p.scripts, .flag, .starting due, [], [], []⟩ : Run)]) (Nat.zero_add _)

theorem flagged_run? (time : Nat) :
    (p.flagged options services time).run? 0 =
      some ⟨0, p.scripts, .flag, .starting options.startDelay, [], [], []⟩ := by
  simp [Machine.run?, flagged_runs]

theorem flagged_running (time : Nat) : (p.flagged options services time).world.running = true :=
  rfl

theorem flagged_canGo (time : Nat) :
    (p.flagged options services time).runs.any
      (·.canGo (p.flagged options services time).world) = decide (options.startDelay ≤ time) := by
  rw [flagged_runs, List.any_cons, List.any_nil, Bool.or_false]
  rfl

variable {p options services} {time : Nat}

theorem poll_of_early (h : time < options.startDelay) (fuel : Nat) :
    (p.flagged options services time).poll fuel 0 = p.flagged options services time := by
  have hearly : ¬ options.startDelay ≤ (p.flagged options services time).world.now :=
    Nat.not_le_of_lt h
  cases fuel with
  | zero => rfl
  | succ fuel =>
    simp only [Machine.poll, flagged_run?, flagged_running, Bool.not_true, Bool.false_eq_true,
      if_false, if_neg hearly]

theorem poll_begins (h : options.startDelay ≤ time) (fuel : Nat) :
    (p.flagged options services time).poll (fuel + 1) 0 =
      ((p.flagged options services time).beginRun 0).poll fuel 0 := by
  have hdue : options.startDelay ≤ (p.flagged options services time).world.now := h
  simp only [Machine.poll, flagged_run?, flagged_running, Bool.not_true, Bool.false_eq_true,
    if_false, if_pos hdue]

theorem settle_of_early (h : time < options.startDelay) (fuel rounds : Nat) :
    (p.flagged options services time).settle fuel rounds = p.flagged options services time := by
  cases rounds with
  | zero => rfl
  | succ rounds => rw [Machine.settle, flagged_canGo, if_neg (by simpa using h)]

theorem settle_begins (h : options.startDelay ≤ time) (fuel rounds : Nat) :
    (p.flagged options services time).settle (fuel + 1) (rounds + 1) =
      (((p.flagged options services time).beginRun 0).poll fuel 0).settle (fuel + 1) rounds := by
  rw [Machine.settle, flagged_canGo, if_pos (by simpa using h), ← poll_begins h]
  rfl

theorem begun_follows (options : Options) (services : Services) (hp : p.isPrivate = true) :
    ((p.flagged options services options.startDelay).beginRun 0).Follows 0 p.scripts
      (Chain.ofHats 0 (Trigger.flag.hats p.scripts)) (p.rota options services) :=
  Machine.beginRun_follows (p.flagged_runs options services options.startDelay) rfl rfl rfl
    (isPrivate_iff.mp hp)

theorem runs_of_late {m : Machine} {scripts : Table Script} {a : Rota} {rounds limit : Nat}
    (h : m.Settled 0 scripts a rounds)
    (hlimit : ∀ n, ((Rota.turn scripts)^[n] a).world.now < limit) (hlate : limit ≤ m.world.now) :
    m.runs = [] := by
  rcases h with ⟨chains, n, hn, -⟩ | ⟨n, hn, hend⟩
  · rw [hn.world] at hlate
    exact absurd (hlimit n) (Nat.not_lt_of_le hlate)
  · exact hend.runs

section

variable (p options services) (limit : Nat) (replies : Array (Nat × Reply))

theorem opening_instant (fuel : Nat) :
    ∃ replies, (Session.opening (.create p options services) [(0, .flag)] limit).instant fuel =
      (Session.undisturbed limit replies ((p.flagged options services 0).poll fuel 0)).ensue fuel :=
  ⟨_, rfl⟩

theorem flagged_instant (fuel time time' : Nat) :
    ((Session.undisturbed limit replies (p.flagged options services time)).advance time').instant
      fuel =
      (Session.undisturbed limit replies (p.flagged options services time')).ensue fuel :=
  rfl

theorem flagged_nextTime? (h : 0 < options.startDelay) :
    (Session.undisturbed limit replies (p.flagged options services 0)).nextTime? =
      some (Session.firstTime limit options.startDelay) := by
  have hnext : (Session.undisturbed limit replies (p.flagged options services 0)).nextTime? =
      ([limit, 0 + options.startDelay].filter (0 < ·)).min? :=
    rfl
  rw [hnext, Nat.zero_add, Session.firstTime]
  by_cases hlimit : limit = 0
  · simp [hlimit, h]
  · simp [hlimit, h, Nat.pos_of_ne_zero hlimit, List.min?]

theorem flagged_concludes (h : 0 < options.startDelay) (rest : Session → Bool) :
    (Session.undisturbed limit replies (p.flagged options services 0)).concludes rest =
      rest ((Session.undisturbed limit replies (p.flagged options services 0)).advance
        (Session.firstTime limit options.startDelay)) := by
  have hcan := p.flagged_canGo options services 0
  rw [decide_eq_false (Nat.not_le_of_lt h)] at hcan
  rw [Session.concludes, flagged_nextTime? p options services limit replies h]
  exact if_neg (Bool.eq_false_iff.mp hcan)

theorem flagged_continued (h : 0 < options.startDelay) (fuel instants : Nat) :
    (Session.undisturbed limit replies (p.flagged options services 0)).continued fuel instants =
      Session.go fuel instants
        ((Session.undisturbed limit replies (p.flagged options services 0)).advance
          (Session.firstTime limit options.startDelay)) := by
  rw [Session.continued, flagged_nextTime? p options services limit replies h]
  rfl

end

/-- If the run of the flag returns, then its rota comes to its end. -/
theorem FlagRun.isOver (hp : p.isPrivate = true) {final : Machine}
    (h : p.FlagRun options services final) :
    ∃ n, ((Rota.turn p.scripts)^[n] (p.rota options services)).IsOver ∧
      final.Ended ((Rota.turn p.scripts)^[n] (p.rota options services)).world := by
  obtain ⟨fuel, limit, hcompletes, rfl⟩ := h
  cases fuel with
  | zero => cases hcompletes
  | succ fuel =>
    obtain ⟨replies, hfirst⟩ := opening_instant p options services limit (fuel + 1)
    rw [Session.completes, hfirst] at hcompletes
    rw [Session.play_eq, Session.go_succ, hfirst]
    have hearly := Session.runs_of_undisturbed hcompletes
    rw [Session.undisturbed_ensue hearly] at hcompletes ⊢
    -- Without a start delay the run begins in the first instant, otherwise in the second one.
    rcases Nat.eq_zero_or_pos options.startDelay with hzero | hpos
    · have hbegun := (begun_follows options services hp).poll_settle fuel fuel (fuel + 1)
      have hnow : p.flagged options services 0 = p.flagged options services options.startDelay := by
        rw [hzero]
      rw [hnow, poll_begins le_rfl] at hcompletes ⊢
      exact Session.isOver_of_concludes rfl rfl hbegun hcompletes
    · rw [poll_of_early hpos, settle_of_early hpos, flagged_concludes p _ _ _ _ hpos] at hcompletes
      rw [poll_of_early hpos, settle_of_early hpos, flagged_continued p _ _ _ _ hpos]
      cases fuel with
      | zero => cases hcompletes
      | succ fuel =>
        have hbegun :=
          (begun_follows options services hp).poll_settle (fuel + 1) (fuel + 1) (fuel + 1)
        rw [Session.completes, flagged_instant] at hcompletes
        rw [Session.go_succ, flagged_instant]
        have hearly := Session.runs_of_undisturbed hcompletes
        have hnot : ¬ limit ≤ Session.firstTime limit options.startDelay := fun hlate => by
          rw [flagged_runs] at hearly
          cases hearly hlate
        rw [Session.undisturbed_ensue hearly, Session.firstTime_eq hnot, settle_begins le_rfl]
          at hcompletes ⊢
        exact Session.isOver_of_concludes rfl rfl hbegun hcompletes

/-- If the rota of the flag comes to its end, then the run of the flag returns. -/
theorem exists_flagRun (hp : p.isPrivate = true) {last : Nat}
    (hover : ((Rota.turn p.scripts)^[last] (p.rota options services)).IsOver) :
    ∃ final, p.FlagRun options services final := by
  obtain ⟨limit, hlimit⟩ := Rota.exists_limit hover
  have hdelay : options.startDelay < limit := hlimit 0
  -- The first instant and the beginning of the run take fuel as well.
  refine ⟨_, last + 2, limit, ?_, rfl⟩
  obtain ⟨replies, hfirst⟩ := opening_instant p options services limit (last + 2)
  rw [Session.completes, hfirst]
  rcases Nat.eq_zero_or_pos options.startDelay with hzero | hpos
  · have hpolled : (((p.flagged options services options.startDelay).beginRun 0).poll (last + 1)
        0).Settled 0 p.scripts (p.rota options services) 0 :=
      (begun_follows options services hp).poll_settle (last + 1) 0 0
    have hbegun := (begun_follows options services hp).poll_settle (last + 1) (last + 1) (last + 2)
    have hnow : p.flagged options services 0 = p.flagged options services options.startDelay := by
      rw [hzero]
    rw [hnow, poll_begins le_rfl, Session.undisturbed_ensue (runs_of_late hpolled hlimit)]
    exact Session.concludes_of_isOver rfl rfl hbegun hover (by omega) (by omega) (by omega) hlimit
  · have hbegun := (begun_follows options services hp).poll_settle (last + 1) (last + 1) (last + 1)
    have hearly (time : Nat) (ht : time ≤ options.startDelay)
        (hlate : limit ≤ (p.flagged options services time).world.now) :
        (p.flagged options services time).runs = [] := by
      have hnow : (p.flagged options services time).world.now = time := rfl
      omega
    rw [poll_of_early hpos, Session.undisturbed_ensue (hearly 0 (Nat.zero_le _)),
      settle_of_early hpos, flagged_concludes p _ _ _ _ hpos, Session.firstTime_of_lt hdelay,
      Session.completes, flagged_instant, Session.undisturbed_ensue (hearly _ le_rfl),
      settle_begins le_rfl]
    exact Session.concludes_of_isOver rfl rfl hbegun hover (by omega) (by omega) (by omega) hlimit

theorem rota_shows (sprite : String) :
    Rota.Shows sprite (p.rota options services) ((p.alone sprite).rota options services) := by
  refine ⟨⟨rfl, rfl, rfl⟩, ?_, rfl, le_rfl, fun _ => rfl⟩
  simp only [rota, Trigger.hats_alone]
  exact Chain.ofSprite_ofHats sprite 0 0 _

/-- Each sprite ends the run of the flag as it ends the run in which all other scripts are
empty, and that run returns too. -/
theorem flagRun_alone (hp : p.isPrivate = true) {final : Machine}
    (h : p.FlagRun options services final) (sprite : String) :
    (∃ alone, (p.alone sprite).FlagRun options services alone) ∧
      ∀ alone, (p.alone sprite).FlagRun options services alone →
        alone.stage.sprite? sprite = final.stage.sprite? sprite := by
  have hp' := alone_isPrivate hp sprite
  obtain ⟨n, hover, hend⟩ := h.isOver hp
  obtain ⟨k, hshows⟩ := (rota_shows sprite).turns (begun_follows options services hp).valid
    (begun_follows options services hp').valid p.scripts (p.alone sprite).scripts n
  have hover' := hshows.isOver hover
  refine ⟨exists_flagRun hp' hover', fun alone halone => ?_⟩
  obtain ⟨i, hi, hend'⟩ := halone.isOver hp'
  rw [hend.sprites, hend'.sprites, Rota.turns_eq_of_isOver hi hover', hshows.world.sprite]

end

/-- One sprite moves in two chains, the other one waits and then climbs. -/
def duet : Project :=
  { ((empty.insertSprite "🐱").1.insertSprite "🐶").1 with
    scripts :=
      [("sprite-1", ⟨[.create "a" .whenFlagClicked ⟨0, 0⟩, .create "b" .repeatTimes ⟨0, 40⟩,
        .create "c" .changeX ⟨20, 76⟩, .create "d" .whenFlagClicked ⟨300, 0⟩,
        .create "e" .wait ⟨300, 40⟩, .create "f" .changeX ⟨300, 80⟩], 6⟩),
      ("sprite-2", ⟨[.create "a" .whenFlagClicked ⟨0, 0⟩, .create "b" .wait ⟨0, 40⟩,
        .create "c" .changeY ⟨0, 80⟩], 3⟩)] }

theorem flagRun_alone_duet :
    duet.isPrivate = true ∧ ∃ final alone,
      duet.FlagRun {} {} final ∧ (duet.alone "sprite-1").FlagRun {} {} alone ∧
      (final.stage.sprite? "sprite-1").map (·.position.x) = some 110 ∧
      alone.stage.sprite? "sprite-1" = final.stage.sprite? "sprite-1" := by
  have hprivate : duet.isPrivate = true := by decide +kernel
  have hruns : (Session.opening (.create duet {} {}) [(0, .flag)] 5000).completes 50 50 = true := by
    decide +kernel
  have hrun : duet.FlagRun {} {} (Session.play 50 (.create duet {} {}) [(0, .flag)] 5000).machine :=
    ⟨50, 5000, hruns, rfl⟩
  obtain ⟨⟨alone, halone⟩, hsame⟩ := flagRun_alone hprivate hrun "sprite-1"
  refine ⟨hprivate, _, alone, hrun, halone, ?_, hsame alone halone⟩
  decide +kernel

end Project

end BlockScript

import BlockScript.Proofs.Run.Turn

/-! Sessions that come to their end by themselves. One whose run goes by a rota does so, for some
fuel and limit, exactly if the rota comes to its end, and it leaves the sprites as the rota does. -/

namespace BlockScript

namespace Session

/-- Whether no run can go on after an instant, and either all is done before the limit or `rest`
holds of what follows. -/
def concludes (rest : Session → Bool) (s : Session) : Bool :=
  if s.machine.runs.any (·.canGo s.machine.world) then false
  else if s.isDone then !s.limitHit
  else match s.nextTime? with
    | some time => rest (s.advance time)
    | none => false

/-- Whether the session comes to its end by itself: the fuel lasts for every instant, and the last
call returns before the limit. -/
def completes (fuel : Nat) : Nat → Session → Bool
  | 0, _ => false
  | instants + 1, s => (s.instant fuel).concludes (completes fuel instants)

def continued (fuel instants : Nat) (s : Session) : Session :=
  if s.isDone then s
  else match s.nextTime? with
    | some time => go fuel instants (s.advance time)
    | none => s

theorem go_succ (fuel instants : Nat) (s : Session) :
    go fuel (instants + 1) s = (s.instant fuel).continued fuel instants :=
  rfl

/-- What is left of an instant once timers have fired and commands were carried out. -/
def ensue (fuel : Nat) (s : Session) : Session :=
  { s.enforceLimit with machine := s.enforceLimit.machine.settle fuel fuel }

theorem instant_eq_ensue {s : Session} (h : s.commands = []) (fuel : Nat) :
    s.instant fuel = ensue fuel { s with machine := s.machine.fireTimers } := by
  obtain ⟨machine, commands, limit, limitHit, replies⟩ := s
  subst h
  rfl

theorem ensue_of_early {s : Session} (h : s.limit ≤ s.now → s.machine.runs = []) (fuel : Nat) :
    s.ensue fuel = { s with machine := s.machine.settle fuel fuel } := by
  have hlimit : s.enforceLimit = s := by
    unfold enforceLimit
    rw [if_neg]
    intro hhit
    simp only [Bool.and_eq_true, decide_eq_true_eq, Bool.not_eq_true', List.isEmpty_eq_false_iff]
      at hhit
    exact hhit.2 (h hhit.1.2)
  rw [ensue, hlimit]

theorem ensue_commands (s : Session) (fuel : Nat) : (s.ensue fuel).commands = s.commands := by
  unfold ensue enforceLimit
  split <;> rfl

theorem ensue_limitHit {s : Session}
    (h : s.limitHit = true ∨ s.limit ≤ s.now ∧ s.machine.runs ≠ []) (fuel : Nat) :
    (s.ensue fuel).limitHit = true := by
  unfold ensue enforceLimit
  cases hhit : s.limitHit with
  | true =>
    simp only [Bool.not_true, Bool.false_and, Bool.false_eq_true, if_false]
    exact hhit
  | false =>
    obtain ⟨hlimit, hruns⟩ := h.resolve_left (by simp [hhit])
    rw [if_pos (by simp [hlimit, hruns])]

theorem concludes_of_rest {rest : Session → Bool} {s : Session} (h : s.limitHit = true)
    (hr : ∀ time, rest (s.advance time) = false) : s.concludes rest = false := by
  unfold concludes
  split
  · rfl
  · split
    · rw [h]
      rfl
    · split
      · exact hr _
      · rfl

/-- After the limit no session comes to its end by itself. -/
theorem concludes_of_limitHit {s : Session} (hc : s.commands = []) (h : s.limitHit = true)
    (fuel instants : Nat) : s.concludes (completes fuel instants) = false := by
  induction instants generalizing s with
  | zero => exact concludes_of_rest h fun _ => rfl
  | succ instants ih =>
    apply concludes_of_rest h
    intro time
    have hc' : (s.advance time).commands = [] := hc
    rw [completes, instant_eq_ensue hc']
    apply ih
    · exact (ensue_commands _ fuel).trans hc
    · apply ensue_limitHit
      exact .inl h

/-- A session that comes to its end by itself has no run at the limit. -/
theorem runs_of_concludes {s : Session} {fuel instants : Nat} (hc : s.commands = [])
    (hs : (s.ensue fuel).concludes (completes fuel instants) = true) (hlimit : s.limit ≤ s.now) :
    s.machine.runs = [] := by
  by_contra hruns
  rw [concludes_of_limitHit ((ensue_commands s fuel).trans hc)
    (ensue_limitHit (.inr ⟨hlimit, hruns⟩) fuel)] at hs
  cases hs

section

variable {scripts : Table Script} {s : Session} {chains : List Chain} {a : Rota}

theorem runs_ne_nil (h : s.machine.Follows 0 scripts chains a) : s.machine.runs ≠ [] := by
  obtain ⟨first, hruns⟩ := h.runs
  rw [hruns]
  simp

theorem nextTime?_eq (hc : s.commands = []) (hl : s.limitHit = false)
    (h : s.machine.Follows 0 scripts chains a) (hready : a.ready = []) :
    s.nextTime? = ((s.limit :: a.waiting.filterMap (·.due?)).filter (s.now < ·)).min? := by
  obtain ⟨first, hruns⟩ := h.runs
  obtain ⟨w, ready, waiting⟩ := a
  obtain rfl : ready = [] := hready
  obtain ⟨rfl, -⟩ := h.lines.wake 0
  simp [nextTime?, hc, hl, hruns, Run.dues]

/-- The next time is that of the limit or that of the next chain, whichever comes first. -/
theorem nextTime?_cases (hc : s.commands = []) (hl : s.limitHit = false)
    (h : s.machine.Follows 0 scripts chains a) (hready : a.ready = []) {time : Nat}
    (ht : s.nextTime? = some time) :
    s.limit ≤ time ∨ time < s.limit ∧ (a.waiting.filterMap (·.due?)).min? = some time := by
  rw [nextTime?_eq hc hl h hready, List.min?_eq_some_iff] at ht
  obtain ⟨hmem, hleast⟩ := ht
  by_cases hlimit : s.limit ≤ time
  · exact .inl hlimit
  · have hearly : time < s.limit := Nat.lt_of_not_le hlimit
    refine .inr ⟨hearly, List.min?_eq_some_iff.mpr ⟨?_, ?_⟩⟩
    · rcases List.mem_cons.mp (List.mem_of_mem_filter hmem) with rfl | hmem
      · exact absurd hearly (Nat.lt_irrefl _)
      · exact hmem
    · intro due hdue
      apply hleast due
      refine List.mem_filter.mpr ⟨List.mem_cons_of_mem _ hdue, ?_⟩
      obtain ⟨c, hw, hd⟩ := List.mem_filterMap.mp hdue
      have hlater := h.valid.waiting c hw due hd
      rw [← h.world] at hlater
      exact decide_eq_true hlater

theorem nextTime?_of_early (hc : s.commands = []) (hl : s.limitHit = false)
    (h : s.machine.Follows 0 scripts chains a) (hready : a.ready = []) {time : Nat}
    (hmin : (a.waiting.filterMap (·.due?)).min? = some time) (hearly : time < s.limit) :
    s.nextTime? = some time := by
  obtain ⟨hmem, hleast⟩ := List.min?_eq_some_iff.mp hmin
  obtain ⟨c, hw, hd⟩ := List.mem_filterMap.mp hmem
  have hlater := h.valid.waiting c hw time hd
  rw [← h.world] at hlater
  rw [nextTime?_eq hc hl h hready, List.min?_eq_some_iff]
  refine ⟨List.mem_filter.mpr ⟨List.mem_cons_of_mem _ hmem, decide_eq_true hlater⟩, ?_⟩
  intro due hdue
  rcases List.mem_cons.mp (List.mem_of_mem_filter hdue) with rfl | hdue
  · exact hearly.le
  · exact hleast due hdue

/-- The instant of the next chain goes on by the rota, and the limit is not yet hit. -/
theorem instant_settled (hc : s.commands = []) (h : s.machine.Follows 0 scripts chains a)
    (hready : a.ready = []) {time : Nat}
    (hmin : (a.waiting.filterMap (·.due?)).min? = some time) (hearly : time < s.limit)
    (fuel : Nat) :
    ∃ m, (s.advance time).instant (fuel + 1) = { s with machine := m } ∧
      m.Settled 0 scripts (a.turn scripts) (fuel + 1) := by
  have hfire := h.fire hready hmin
  have hc' : (s.advance time).commands = [] := hc
  refine ⟨(s.advance time).machine.fireTimers.settle (fuel + 1) (fuel + 1), ?_, ?_⟩
  · rw [instant_eq_ensue hc', ensue_of_early]
    · rfl
    · intro hlate
      exact absurd hearly (Nat.not_lt_of_le hlate)
  · exact hfire.settle fuel (fuel + 1)

theorem isDone_of_ended {w : World} (hc : s.commands = []) (h : s.machine.Ended w) :
    s.isDone = true := by
  simp [isDone, hc, h.runs]

theorem not_isDone (h : s.machine.Follows 0 scripts chains a) : s.isDone = false := by
  simp [isDone, runs_ne_nil h]

theorem continued_of_ended {w : World} (hc : s.commands = []) (h : s.machine.Ended w)
    (fuel instants : Nat) : s.continued fuel instants = s := by
  rw [continued, if_pos (isDone_of_ended hc h)]

theorem concludes_of_ended {w : World} (hc : s.commands = []) (hl : s.limitHit = false)
    (h : s.machine.Ended w) (rest : Session → Bool) : s.concludes rest = true := by
  rw [concludes, if_neg (by simp [h.runs]), if_pos (isDone_of_ended hc h), hl]
  rfl

theorem concludes_iff (h : s.machine.Follows 0 scripts chains a) {rest : Session → Bool} :
    s.concludes rest = true ↔
      a.Idle ∧ ∃ time, s.nextTime? = some time ∧ rest (s.advance time) = true := by
  have hcan := h.canGo_iff
  rw [concludes, not_isDone h]
  by_cases hidle : a.Idle
  · rw [if_neg (fun hc => hcan.mp hc hidle), if_neg (by simp)]
    cases s.nextTime? with
    | none => simp
    | some time => simp [hidle]
  · rw [if_pos (hcan.mpr hidle)]
    simp [hidle]

/-- If what follows an instant comes to its end by itself, so does the rota. -/
theorem isOver_of_concludes {fuel instants rounds : Nat} (hc : s.commands = [])
    (hl : s.limitHit = false) (h : s.machine.Settled 0 scripts a rounds)
    (hs : s.concludes (completes (fuel + 1) instants) = true) :
    ∃ n, ((Rota.turn scripts)^[n] a).IsOver ∧
      (s.continued (fuel + 1) instants).machine.Ended ((Rota.turn scripts)^[n] a).world := by
  induction instants generalizing s a rounds with
  | zero =>
    rcases h with ⟨chains, n, hn, -⟩ | ⟨n, hn, hend⟩
    · obtain ⟨-, time, -, hrest⟩ := (concludes_iff hn).mp hs
      cases hrest
    · rw [continued_of_ended hc hend]
      exact ⟨n, hn, hend⟩
  | succ instants ih =>
    rcases h with ⟨chains, n, hn, -⟩ | ⟨n, hn, hend⟩
    · obtain ⟨hidle, time, ht, hrest⟩ := (concludes_iff hn).mp hs
      have hgo : s.continued (fuel + 1) (instants + 1) =
          ((s.advance time).instant (fuel + 1)).continued (fuel + 1) instants := by
        rw [continued, not_isDone hn, if_neg (by simp), ht]
        exact go_succ ..
      rw [completes] at hrest
      rw [hgo]
      rcases nextTime?_cases hc hl hn hidle.ready ht with hlate | ⟨hearly, hmin⟩
      · -- The limit would stop the run, which is no end by itself.
        let late : Session := { s.advance time with machine := (s.advance time).machine.fireTimers }
        have hc' : (s.advance time).commands = [] := hc
        rw [instant_eq_ensue hc'] at hrest
        have hruns := runs_of_concludes (s := late) hc hrest hlate
        exact absurd (List.map_eq_nil_iff.mp hruns) (runs_ne_nil (s := s) hn)
      · obtain ⟨m, hm, hsettled⟩ := instant_settled hc hn hidle.ready hmin hearly fuel
        rw [hm] at hrest ⊢
        obtain ⟨k, hk, hend⟩ := ih (s := { s with machine := m }) hc hl hsettled hrest
        rw [← Function.iterate_succ_apply, ← Function.iterate_add_apply] at hk hend
        exact ⟨k + 1 + n, hk, hend⟩
    · rw [continued_of_ended hc hend]
      exact ⟨n, hn, hend⟩

/-- If the rota comes to its end, so does what follows an instant, with fuel and instants for as
many turns and with the limit after the last of them. -/
theorem concludes_of_isOver {fuel instants rounds last : Nat} (hc : s.commands = [])
    (hl : s.limitHit = false) (h : s.machine.Settled 0 scripts a rounds)
    (hover : ((Rota.turn scripts)^[last] a).IsOver) (hrounds : last < rounds)
    (hfuel : last ≤ fuel) (hinstants : last ≤ instants)
    (hlimit : ∀ n, ((Rota.turn scripts)^[n] a).world.now < s.limit) :
    s.concludes (completes (fuel + 1) instants) = true := by
  induction instants generalizing s a rounds last with
  | zero =>
    rcases h with ⟨chains, n, hn, hidle⟩ | ⟨n, hn, hend⟩
    · obtain rfl : last = 0 := by omega
      have hidle := hidle 0 hrounds hover
      exact absurd (Rota.isOver_of_le hover (Nat.zero_le n)).waiting hidle.waiting
    · exact concludes_of_ended hc hl hend _
  | succ instants ih =>
    rcases h with ⟨chains, n, hn, hidle⟩ | ⟨n, hn, hend⟩
    · have hidle := hidle last hrounds hover
      have hover' : ((Rota.turn scripts)^[last - n] ((Rota.turn scripts)^[n] a)).IsOver := by
        rw [← Function.iterate_add_apply]
        exact Rota.isOver_of_le hover (by omega)
      have hlimit' (k : Nat) :
          ((Rota.turn scripts)^[k] ((Rota.turn scripts)^[n] a)).world.now < s.limit := by
        rw [← Function.iterate_add_apply]
        exact hlimit (k + n)
      generalize (Rota.turn scripts)^[n] a = b at hn hidle hover' hlimit'
      cases hmin : (b.waiting.filterMap (·.due?)).min? with
      | none =>
        have hstuck : b.turn scripts = b := by
          obtain ⟨w, ready, waiting⟩ := b
          obtain rfl : ready = [] := hidle.ready
          simp only [Rota.turn]
          rw [hmin]
        rw [Function.iterate_fixed hstuck] at hover'
        exact absurd hover'.waiting hidle.waiting
      | some time =>
        have hturn : (b.turn scripts).world.now = time := by
          obtain ⟨w, ready, waiting⟩ := b
          obtain rfl : ready = [] := hidle.ready
          simp only [Rota.turn]
          rw [hmin]
        have hearly : time < s.limit := by
          have hone := hlimit' 1
          rw [Function.iterate_one, hturn] at hone
          exact hone
        have ht := nextTime?_of_early hc hl hn hidle.ready hmin hearly
        refine (concludes_iff hn).mpr ⟨hidle, time, ht, ?_⟩
        obtain ⟨m, hm, hsettled⟩ := instant_settled hc hn hidle.ready hmin hearly fuel
        have hne : last - n ≠ 0 := by
          intro hzero
          rw [hzero] at hover'
          exact absurd hover'.waiting hidle.waiting
        obtain ⟨k, hk⟩ := Nat.exists_eq_succ_of_ne_zero hne
        rw [hk, Function.iterate_succ_apply] at hover'
        rw [completes, hm]
        exact ih (s := { s with machine := m }) hc hl hsettled hover' (by omega) (by omega)
          (by omega) fun i => hlimit' (i + 1)
    · exact concludes_of_ended hc hl hend _

end

end Session

end BlockScript

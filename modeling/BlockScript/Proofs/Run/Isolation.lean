import BlockScript.Proofs.Run.Stop

/-! How far a stop keeps runs apart. All runs share one flag, so a call that comes before a stopped
run has returned lets the chains of that run go on, and the return of that run halts the new
one. -/

namespace BlockScript

/-- Whether a call has come that was not followed by a halt. -/
def Event.Restarts (es : List Event) : Prop :=
  ∃ before e after, es = before ++ e :: after ∧ e.isCall = true ∧ ∀ a ∈ after, a.isHalt = false

theorem Event.not_restarts_nil : ¬ Restarts [] := by
  rintro ⟨before, e, after, h, -⟩
  simp at h

theorem Event.restarts_snoc {es : List Event} {e : Event} :
    Restarts (es ++ [e]) ↔ e.isCall = true ∨ Restarts es ∧ e.isHalt = false := by
  constructor
  · rintro ⟨before, a, after, h, ha, hafter⟩
    cases after using List.reverseRecOn with
    | nil =>
      obtain ⟨-, he⟩ := List.append_inj' h rfl
      cases he
      exact .inl ha
    | append_singleton after b =>
      rw [← List.cons_append, ← List.append_assoc] at h
      obtain ⟨hes, he⟩ := List.append_inj' h rfl
      cases he
      rw [List.forall_mem_append, List.forall_mem_singleton] at hafter
      exact .inr ⟨⟨before, a, after, hes, ha, hafter.1⟩, hafter.2⟩
  · rintro (he | ⟨⟨before, a, after, rfl, ha, hafter⟩, he⟩)
    · exact ⟨es, e, [], rfl, he, by simp⟩
    · refine ⟨before, a, after ++ [e], by simp, ha, ?_⟩
      rw [List.forall_mem_append, List.forall_mem_singleton]
      exact ⟨hafter, he⟩

/-- Whether the chain would begin a block if it were resumed in a run that goes on. -/
def Chain.WouldBegin (scripts : Table Script) (w : World) (c : Chain) : Prop :=
  let w := { w with running := true }
  c.canResume w = true ∧ ∃ fuel, (c.run scripts fuel w).1.begun ≠ w.begun

namespace Machine

theorem running_iff_restarts {m m' : Machine} {later : List Event} (h : m.Reachable)
    (hl : m.stop.after later = some m') : m'.world.running = true ↔ Event.Restarts later := by
  have hs : m.next? (.obey .stop) = some m.stop := rfl
  refine after_induction (P := fun es m => m.world.running = true ↔ Event.Restarts es) ?_ ?_ hl
  · simp [stop_running h.tidy, Event.not_restarts_nil]
  · intro es m₁ e m₂ hb ih he
    have hm₁ := (h.next hs).after hb
    rw [Event.restarts_snoc]
    cases hc : e.isCall with
    | true => simp [next?_call hm₁ hc he]
    | false =>
      have hr : m₂.world.running = (m₁.world.running && !e.isHalt) :=
        (next?_outcome hm₁.tidy he).running hc
      rw [hr, ← ih]
      simp

theorem wouldBegin_iff {m : Machine} (hr : m.world.running = true) {r : Run} {c : Chain} :
    c.WouldBegin r.scripts m.world ↔ c.canResume m.world = true ∧
      ∃ fuel, (c.run r.scripts fuel m.world).1.begun ≠ m.world.begun := by
  have hw : { m.world with running := true } = m.world := by
    rw [← hr]
  simp only [Chain.WouldBegin, hw]

theorem begins_iff {m : Machine} (h : m.Reachable) {r : Run} (hmem : r ∈ m.lanes) {c : Chain}
    (hc : c ∈ r.chains) :
    (∃ fuel, (m.resumeChain fuel r.call c.id).1.world.begun ≠ m.world.begun) ↔
      m.world.running = true ∧ c.WouldBegin r.scripts m.world := by
  cases hr : m.world.running with
  | false =>
    have hends := endsAtOnce h hr hmem hc
    simp [fun fuel => (hends fuel).1]
  | true =>
    have hm := tidy_asleep.mpr h.tidy
    have hi := (hm.runs r hmem).ids
    obtain ⟨R₁, R₂, hR⟩ := List.append_of_mem hmem
    obtain ⟨l₁, l₂, hl⟩ := List.append_of_mem hc
    rw [wouldBegin_iff hr]
    cases hres : c.canResume m.world with
    | false =>
      simp [fun fuel => resumeChain_rests hm.calls hR hi hl fuel hres]
    | true =>
      have hworld (fuel : Nat) : (m.resumeChain fuel r.call c.id).1.world =
          { (c.run r.scripts fuel m.world).1 with sent := [] } :=
        congrArg world (resumeChain_split hm.calls hR hi hl fuel hres).2
      simp only [hworld, true_and]
      rfl

theorem Outcome.runs_sublist {m m' : Machine} {e : Event} (h : Outcome m e m')
    (hs : m.world.state = .running) :
    (m'.runs.map (·.call)).Sublist (m.runs.map (·.call)) := by
  cases h with
  | host | tick | wakes | rests => exact .refl _
  | join | stop | answer => exact calls_sublist m.runs fun r => rfl
  | opens h => exact absurd hs (not_running_of_starts h)
  | begins hr hp hw =>
    simp only [hr, List.map_append, List.map_cons]
    exact .refl _
  | handles hr hp hh =>
    simp only [hr, List.map_append, List.map_cons]
    exact .refl _
  | resumes hr hl hc hrun =>
    refine (calls_sublist _ ?_).trans ?_
    · exact fun r => rfl
    · simp only [hr, List.map_append, List.map_cons]
      exact .refl _
  | @finishes R₁ R₂ r hr ho =>
    refine (calls_sublist _ ?_).trans ?_
    · exact fun r => rfl
    · rw [hr]
      exact (List.Sublist.append_left (List.sublist_cons_self r R₂) R₁).map _

theorem Outcome.mem_of_finish {m m' : Machine} {call : Nat} (h : Outcome m (.finish call) m') :
    ∃ r ∈ m.runs, r.call = call := by
  cases h with
  | host he => cases he
  | @finishes R₁ R₂ r hr ho => exact ⟨r, by rw [hr]; exact List.mem_append_cons_self, rfl⟩

/-- Without a stop, a machine runs on and gets no new run as long as none of its runs returns. -/
theorem runs_on {m m' : Machine} {es : List Event} (h : m.Reachable) (hr : m.world.running = true)
    (he : m.after es = some m') (hstop : .obey .stop ∉ es)
    (hreturn : ∀ call ∈ m.runs.map (·.call), .finish call ∉ es) :
    m'.world.running = true ∧ (m'.runs.map (·.call)).Sublist (m.runs.map (·.call)) := by
  refine after_induction (P := fun es m' => .obey .stop ∉ es →
    (∀ call ∈ m.runs.map (·.call), .finish call ∉ es) →
    m'.world.running = true ∧ (m'.runs.map (·.call)).Sublist (m.runs.map (·.call)))
    (fun _ _ => ⟨hr, .refl _⟩) ?_ he hstop hreturn
  intro es m₁ e m₂ hb ih he hstop hreturn
  simp only [List.mem_append, List.mem_singleton, not_or] at hstop hreturn
  obtain ⟨hr₁, hsub⟩ := ih hstop.1 fun call hc => (hreturn call hc).1
  have hm₁ := h.after hb
  have ho := next?_outcome hm₁.tidy he
  -- While the machine runs, a call opens nothing.
  have hs : m₁.asleep.world.state = .running := hm₁.kept.running_iff.mpr hr₁
  have hcalls := ho.runs_sublist hs
  simp only [asleep, ← calls_eq] at hcalls
  refine ⟨next?_running hm₁ hr₁ ?_ he, hcalls.trans hsub⟩
  cases e with
  | obey c =>
    cases c with
    | stop => exact absurd rfl hstop.2
    | _ => rfl
  | finish call =>
    obtain ⟨r, hr', rfl⟩ := ho.mem_of_finish
    have hmem : r.call ∈ m₁.runs.map (·.call) := by
      rw [calls_eq]
      exact List.mem_map_of_mem hr'
    exact absurd rfl (hreturn r.call (hsub.subset hmem)).2
  | _ => rfl

theorem halted_iff {m₀ m₁ m₂ : Machine} {c : Command} {t : Trigger} {during : List Event}
    (h : m₀.Reachable) (hs : m₀.starts c = some t) (ho : m₀.next? (.obey c) = some m₁)
    (hd : m₁.after during = some m₂) (hstop : .obey .stop ∉ during)
    (hreturn : .finish m₀.calls ∉ during) :
    (∃ before after m, during = before ++ after ∧ m₁.after before = some m ∧
      m.world.running = false) ↔ ∃ r ∈ m₀.runs, .finish r.call ∈ during := by
  have hm₁ : m₁.Reachable := h.next ho
  have hcalls : m₁.runs.map (·.call) = m₀.runs.map (·.call) ++ [m₀.calls] := by
    cases ho
    rw [calls_eq, calls_eq m₀]
    have hr := congrArg (fun m => m.runs.map (·.call)) (obey_opens hs)
    simpa [asleep, opened, newRun] using hr
  constructor
  -- If none of the old runs returns, the machine runs on at every point before the end.
  · rintro ⟨before, after, m, rfl, hb, hr⟩
    by_contra hn
    have hrun : m₁.world.running = true := next?_call h (isCall_of_starts hs) ho
    have hon : m.world.running = true := by
      refine (runs_on hm₁ hrun hb (fun hmem => hstop (List.mem_append_left _ hmem)) ?_).1
      intro call hc hmem
      rw [hcalls, List.mem_append, List.mem_singleton] at hc
      rcases hc with hc | rfl
      · obtain ⟨r, hr', rfl⟩ := List.mem_map.mp hc
        exact hn ⟨r, hr', List.mem_append_left _ hmem⟩
      · exact hreturn (List.mem_append_left _ hmem)
    rw [hon] at hr
    cases hr
  · rintro ⟨r, hr, hf⟩
    obtain ⟨before, after, rfl⟩ := List.append_of_mem hf
    rw [← List.singleton_append, ← List.append_assoc] at hd
    obtain ⟨m, hb, -⟩ := after_append_iff.mp hd
    refine ⟨before ++ [.finish r.call], after, m, by simp, hb, ?_⟩
    obtain ⟨m', hb', hf'⟩ := after_snoc_iff.mp hb
    have hrun : m.world.running = (m'.world.running && !(Event.finish r.call).isHalt) :=
      (next?_outcome (hm₁.after hb').tidy hf').running rfl
    simpa [Event.isHalt] using hrun

/-- Exactly how far runs are apart. After a stop, a chain begins a block only if a call has come
since that no halt followed, and then it does so as if its run had not been stopped; otherwise it
ends at its next resumption. And a run that is not stopped is halted before it returns exactly
when a run that had not returned at its start does so first, so never if there was none. -/
theorem stop_isolates_unless_restarted {m : Machine} (h : m.Reachable) :
    (∀ later m', m.stop.after later = some m' → ∀ r ∈ m'.runs, ∀ c ∈ r.chains,
      (¬ Event.Restarts later → m'.EndsAtOnce r.call c) ∧
      ((∃ fuel, (m'.resumeChain fuel r.call c.id).1.world.begun ≠ m'.world.begun) ↔
        Event.Restarts later ∧ c.WouldBegin r.scripts m'.world)) ∧
    ∀ c t m₁ during m₂, m.starts c = some t → m.next? (.obey c) = some m₁ →
      m₁.after during = some m₂ → .obey .stop ∉ during → .finish m.calls ∉ during →
      ((∃ before after m', during = before ++ after ∧ m₁.after before = some m' ∧
        m'.world.running = false) ↔ ∃ r ∈ m.runs, .finish r.call ∈ during) := by
  refine ⟨?_, fun c t m₁ during m₂ => halted_iff h⟩
  intro later m' hl r hmem c hc
  have hs : m.next? (.obey .stop) = some m.stop := rfl
  have hm' := (h.next hs).after hl
  have hrun := running_iff_restarts h hl
  have hlane : r.asleep ∈ m'.lanes := List.mem_map_of_mem hmem
  refine ⟨fun hn => endsAtOnce hm' ?_ hlane hc, ?_⟩
  · rw [← hrun] at hn
    exact Bool.not_eq_true _ ▸ hn
  · rw [← hrun]
    exact begins_iff hm' hlane hc

def threeHides : Script :=
  ⟨[.create "a" .whenFlagClicked ⟨0, 0⟩, .create "b" .hideSprite ⟨0, 40⟩,
    .create "c" .hideSprite ⟨0, 80⟩, .create "d" .hideSprite ⟨0, 120⟩], 4⟩

def firstHide : List Event :=
  [.edit (.addSprite "🐱"), .edit (.editScript "sprite-1" fun _ => .ok (threeHides, ())),
    .obey .flag, .advance 50, .beginRun 0, .resumeChain 9 0 1, .advance 60]

def secondRun : List Event :=
  [.advance 110, .beginRun 1, .resumeChain 9 1 2]

/-- The stopped run returns before the next call, so that the second run is not halted. -/
theorem stop_isolates_unless_restarted_in_turn :
    ∃ m m₀ m₁ m₂ : Machine, m.Reachable ∧
      (∀ r ∈ m.stop.runs, ∀ c ∈ r.chains, m.stop.EndsAtOnce r.call c) ∧
      m.stop.after [.resumeChain 9 0 1, .finish 0] = some m₀ ∧
      m₀.next? (.obey .flag) = some m₁ ∧ m₁.after secondRun = some m₂ ∧ m₂.world.begun = 2 ∧
      ¬ ∃ before after m', secondRun = before ++ after ∧ m₁.after before = some m' ∧
        m'.world.running = false := by
  have he : ((create .empty {} {}).after firstHide).bind (fun m =>
      (m.stop.after [.resumeChain 9 0 1, .finish 0]).bind fun m₀ =>
        (m₀.next? (.obey .flag)).bind fun m₁ => (m₁.after secondRun).map fun m₂ =>
          (m₀.calls, m₀.runs.length, m₀.starts .flag, m₂.world.begun)) =
      some (1, 0, some .flag, 2) := by
    decide +kernel
  obtain ⟨m, hfirst, he⟩ := Option.bind_eq_some_iff.mp he
  obtain ⟨m₀, hstop, he⟩ := Option.bind_eq_some_iff.mp he
  obtain ⟨m₁, hopen, he⟩ := Option.bind_eq_some_iff.mp he
  obtain ⟨m₂, hsecond, he⟩ := Option.map_eq_some_iff.mp he
  simp only [Prod.mk.injEq] at he
  obtain ⟨hcalls, hruns, hstart, hbegun⟩ := he
  have hm : m.Reachable := ⟨_, _, firstHide, hfirst⟩
  have hm₀ : m₀.Reachable := by
    have hs : m.next? (.obey .stop) = some m.stop := rfl
    exact (hm.next hs).after hstop
  have hends := (stop_isolates_unless_restarted hm).1 [] m.stop rfl
  have hhalted := (stop_isolates_unless_restarted hm₀).2 .flag .flag m₁ secondRun m₂ hstart hopen
    hsecond (by simp [secondRun]) (by simp [secondRun])
  refine ⟨m, m₀, m₁, m₂, hm, fun r hr c hc => (hends r hr c hc).1 Event.not_restarts_nil,
    hstop, hopen, hsecond, hbegun, ?_⟩
  rw [hhalted, List.eq_nil_of_length_eq_zero hruns]
  simp

/-- The second call comes before the stopped run has returned: the chain of that run begins its
next block, and its return halts the second run, whose chain has not ended. -/
theorem restart_revives_stopped_chain :
    ∃ m m' m'' : Machine, m.Reachable ∧ m.stop.runs.map (·.call) = [0] ∧
      m.stop.after [.obey .flag, .advance 100] = some m' ∧
      (m'.resumeChain 9 0 1).1.world.begun = m'.world.begun + 1 ∧
      m'.after [.resumeChain 9 0 1, .advance 110, .beginRun 1, .resumeChain 9 1 2, .advance 150,
        .resumeChain 9 0 1, .advance 200, .resumeChain 9 0 1, .finish 0] = some m'' ∧
      m''.world.running = false ∧ m''.runs.map (·.call) = [1] ∧ m''.chains.length = 1 := by
  let revived : List Event :=
    [.resumeChain 9 0 1, .advance 110, .beginRun 1, .resumeChain 9 1 2, .advance 150,
      .resumeChain 9 0 1, .advance 200, .resumeChain 9 0 1, .finish 0]
  have he : ((create .empty {} {}).after firstHide).bind (fun m =>
      (m.stop.after [.obey .flag, .advance 100]).bind fun m' => (m'.after revived).map fun m'' =>
        ((m.stop.runs.map (·.call), m'.world.begun, (m'.resumeChain 9 0 1).1.world.begun),
          m''.world.running, m''.runs.map (·.call), m''.chains.length)) =
      some (([0], 1, 2), false, [1], 1) := by
    decide +kernel
  obtain ⟨m, hfirst, he⟩ := Option.bind_eq_some_iff.mp he
  obtain ⟨m', hrestart, he⟩ := Option.bind_eq_some_iff.mp he
  obtain ⟨m'', hrevived, he⟩ := Option.map_eq_some_iff.mp he
  simp only [Prod.mk.injEq] at he
  obtain ⟨⟨hcalls, hbefore, hafter⟩, hleft⟩ := he
  exact ⟨m, m', m'', ⟨_, _, firstHide, hfirst⟩, hcalls, hrestart, by rw [hbefore, hafter],
    hrevived, hleft⟩

end Machine

end BlockScript

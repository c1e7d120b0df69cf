import BlockScript.Proofs.Run.Deed

/-! How a chain comes to its end while its run goes on. Each step it takes is a moment, and the
last block of its sequence stands at one of them. -/

namespace BlockScript

def Frame.isStep : Frame → Bool
  | .step .. => true
  | .loop .. => false

/-- Whether a chain that is inside of no block can have the task. -/
def Task.isOuter : Task → Bool
  | .start .. | .block .. | .resume => true
  | _ => false

namespace Chain

/-- The outermost frame is a block, and a chain inside of no block begins one or ends. -/
structure Grounded (c : Chain) : Prop where
  outermost : ∀ f ∈ c.frames.getLast?, f.isStep = true
  inside : c.frames = [] → c.task.isOuter = true

/-- The chain has come to the end of its blocks: none follows its hat, or none follows the block
of its outermost sequence that it has just run. -/
def AtEnd (c : Chain) : Prop :=
  match c.task with
  | .start blocks hat => Layout.successor blocks hat = none
  | .pause _ .step | .wait (.pause _ .step) =>
    ∃ blocks b depth, c.frames = [.step blocks b depth] ∧ Layout.successor blocks b = none
  | _ => False

/-- The chain does not do what it does in a run that goes on. -/
def CutShort (scripts : Table Script) (w : World) (c : Chain) : Prop :=
  (c.step scripts w).2 ≠ (c.step scripts { w with running := true }).2

/-- The steps of a resumption, each with the world and the chain before it. -/
def moments (scripts : Table Script) : Nat → World → Chain → List (World × Chain)
  | 0, _, _ => []
  | fuel + 1, w, c =>
    (w, c) :: match c.step scripts w with
      | (_, none) => []
      | (w', some c') => if c'.isWaiting then [] else moments scripts fuel w' c'

/-- A chain with these moments has ended at the end of its blocks and was not cut short. -/
structure Completed (scripts : Table Script) (ms : List (World × Chain)) : Prop where
  reached : ∃ p ∈ ms, p.2.AtEnd
  ended : ∃ p, ms.getLast? = some p ∧ (p.2.step scripts p.1).2 = none
  uncut : ∀ p ∈ ms, ¬ CutShort scripts p.1 p.2

/-- A chain with these moments has not ended, and if it is about to, it has come to the end of
its blocks. -/
structure OnTrack (ms : List (World × Chain)) (c : Chain) : Prop where
  grounded : c.Grounded
  ending : c.frames = [] → c.task = .resume → ∃ p ∈ ms, p.2.AtEnd

/-- What is left of a chain with these moments: it is on track, or it has ended at the end of its
blocks. -/
def Follows (ms : List (World × Chain)) : Option Chain → Prop
  | some c => OnTrack ms c
  | none => ∃ p ∈ ms, p.2.AtEnd

theorem not_cutShort {scripts : Table Script} {w : World} {c : Chain} (h : w.running = true) :
    ¬ CutShort scripts w c := by
  have hw : { w with running := true } = w := by rw [← h]
  rw [CutShort, hw]
  exact fun hne => hne rfl

theorem Grounded.pop {c d : Chain} {f : Frame} (h : c.Grounded) (hc : c.frames = f :: d.frames)
    (hd : d.task.isOuter = true) : d.Grounded := by
  refine ⟨fun g hg => h.outermost g ?_, fun _ => hd⟩
  rw [hc, List.getLast?_cons, hg]
  rfl

theorem Grounded.of_loop {c : Chain} {f : Frame} {outer : List Frame} (h : c.Grounded)
    (hc : c.frames = f :: outer) (hf : f.isStep = false) : outer ≠ [] := by
  intro ho
  rw [h.outermost f (by rw [hc, ho]; rfl)] at hf
  cases hf

theorem Grounded.onTrack {c : Chain} (h : c.Grounded) (hn : c.frames ≠ [] ∨ c.task ≠ .resume)
    (ms : List (World × Chain)) : OnTrack ms c :=
  ⟨h, fun hf ht => hn.elim (absurd hf) (absurd ht)⟩

theorem Grounded.onTrack_of_inside {c : Chain} (h : c.Grounded) (hc : c.task.isOuter = false)
    (task : Task) (ms : List (World × Chain)) : OnTrack ms { c with task := task } := by
  have hne : c.frames ≠ [] := fun he => by
    rw [h.inside he] at hc
    cases hc
  have hd : Grounded { c with task := task } := ⟨h.outermost, fun he => absurd he hne⟩
  exact hd.onTrack (.inl hne) ms

theorem OnTrack.receive {ms : List (World × Chain)} {c : Chain} (h : OnTrack ms c) (ask : Nat)
    (text : String) : OnTrack ms (c.receive ask text) := by
  rcases c.receive_cases ask text with he | ⟨ht, he⟩
  · rw [he]
    exact h
  · rw [he]
    exact h.grounded.onTrack_of_inside (by rw [ht]; rfl) _ ms

theorem Grounded.onTrack_of_sequel {w w' : World} {c : Chain} {due : Option Nat}
    {purpose : Purpose} {frames : List Frame} {task : Task} (h : c.Grounded)
    (hr : w.running = true) (hc : c.task = .pause due purpose ∨ c.task = .wait (.pause due purpose))
    (hq : w.Sequel c.sprite c.frames w.running purpose w' frames task)
    (ms : List (World × Chain)) :
    OnTrack (ms ++ [(w, c)]) { c with frames := frames, task := task } := by
  have hout : c.task.isOuter = false := by rcases hc with hc | hc <;> rw [hc] <;> rfl
  cases hq with
  | next hf => exact (h.pop hf rfl).onTrack (.inr (by simp)) _
  | @last blocks b depth _ hf hs =>
    refine ⟨h.pop hf rfl, fun ho _ => ⟨(w, c), by simp, ?_⟩⟩
    obtain rfl : frames = [] := ho
    unfold AtEnd
    rcases hc with hc | hc
    · rw [hc]
      exact ⟨blocks, b, depth, hf, hs hr⟩
    · rw [hc]
      exact ⟨blocks, b, depth, hf, hs hr⟩
  | _ => exact h.onTrack_of_inside hout _ _

theorem step_onTrack {scripts : Table Script} {w : World} {c : Chain} {ms : List (World × Chain)}
    (hr : w.running = true) (h : OnTrack ms c) :
    Follows (ms ++ [(w, c)]) (c.step scripts w).2 := by
  have hg := h.grounded
  have hs := c.step_transition scripts w
  generalize (c.step scripts w).1 = w', (c.step scripts w).2 = c' at hs ⊢
  cases hs with
  | @first blocks hat b ht =>
    have hd : Grounded { c with task := .block blocks b 0 } := ⟨hg.outermost, fun _ => rfl⟩
    exact hd.onTrack (.inr (by simp)) _
  | bare ht hs =>
    refine ⟨(w, c), by simp, ?_⟩
    simp only [AtEnd, ht]
    exact hs
  | begins ht hr hp =>
    refine Grounded.onTrack (c := { c with frames := _, task := _ }) ⟨?_, ?_⟩ (.inl ?_) _
    · intro f hf
      simp only [List.getLast?_append, List.getLast?_cons, Option.some_or] at hf
      cases hl : c.frames.getLast? with
      | none =>
        rw [hl] at hf
        cases hf
        rfl
      | some g =>
        rw [hl] at hf
        cases hf
        exact hg.outermost _ hl
    · simp
    · simp
  | passes ht hstopped =>
    rw [hr] at hstopped
    cases hstopped
  | leaves ht hf => exact (hg.pop hf rfl).onTrack (.inl (hg.of_loop hf rfl)) _
  | hurries ht hd hq => exact hg.onTrack_of_sequel hr (.inl ht) hq ms
  | wakes ht ho hq => exact hg.onTrack_of_sequel hr (.inr ht) hq ms
  | ends ht hf =>
    obtain ⟨p, hp, he⟩ := h.ending hf ht
    exact ⟨p, List.mem_append_left _ hp, he⟩
  | finishes ht hf =>
    have hne : c.frames ≠ [] := by simp [hf]
    have hd : Grounded { c with task := .pause (some w.options.stepDelay) .step } :=
      ⟨hg.outermost, fun ho => absurd ho hne⟩
    exact hd.onTrack (.inl hne) _
  | rounds ht hf =>
    have ho := hg.of_loop hf rfl
    refine Grounded.onTrack (c := { c with frames := _, task := .round }) ⟨fun f hl => ?_, ?_⟩
      (.inl ?_) _
    · apply hg.outermost f
      rw [hf]
      rw [List.getLast?_cons_of_ne_nil ho] at hl ⊢
      exact hl
    · simp
    · simp
  | capped ht | enters ht | hollow ht | again ht | astray ht | sees ht | misses ht | waits ht
  | stays ht | hears ht => exact hg.onTrack_of_inside (by rw [ht]; rfl) _ _

theorem run_follows {scripts : Table Script} {w : World} {c : Chain} {ms : List (World × Chain)}
    (hr : w.running = true) (h : OnTrack ms c) (fuel : Nat) :
    Follows (ms ++ c.moments scripts fuel w) (c.run scripts fuel w).2 := by
  induction fuel generalizing w c ms with
  | zero =>
    rw [moments, List.append_nil]
    exact h
  | succ fuel ih =>
    have hs : Follows (ms ++ [(w, c)]) (c.step scripts w).2 := step_onTrack hr h
    have hr' := (c.step_same_run scripts w).2.1.trans hr
    rw [run, moments]
    generalize c.step scripts w = p at hs hr'
    obtain ⟨w', _ | d⟩ := p
    · exact hs
    · simp only
      split
      · exact hs
      · rw [← List.singleton_append, ← List.append_assoc]
        exact ih hr' hs

theorem moments_running {scripts : Table Script} {w : World} {c : Chain} (hr : w.running = true)
    (fuel : Nat) : ∀ p ∈ c.moments scripts fuel w, p.1.running = true := by
  induction fuel generalizing w c with
  | zero => simp [moments]
  | succ fuel ih =>
    have hr' := (c.step_same_run scripts w).2.1.trans hr
    rw [moments]
    generalize c.step scripts w = p at hr'
    obtain ⟨w', _ | d⟩ := p
    · simpa using hr
    · simp only [List.forall_mem_cons]
      split
      · simpa using hr
      · exact ⟨hr, ih hr'⟩

theorem moments_ended {scripts : Table Script} {w : World} {c : Chain} {fuel : Nat}
    (h : (c.run scripts fuel w).2 = none) :
    ∃ p, (c.moments scripts fuel w).getLast? = some p ∧ (p.2.step scripts p.1).2 = none := by
  induction fuel generalizing w c with
  | zero => cases h
  | succ fuel ih =>
    rw [run] at h
    rw [moments]
    cases hs : c.step scripts w with
    | mk w' c' =>
      rw [hs] at h
      cases c' with
      | none => exact ⟨(w, c), rfl, by simp only [hs]⟩
      | some d =>
        simp only at h ⊢
        split at h
        · cases h
        · rename_i hw
          obtain ⟨p, hp, hn⟩ := ih h
          rw [if_neg hw]
          exact ⟨p, by rw [List.getLast?_cons, hp]; rfl, hn⟩

end Chain

end BlockScript

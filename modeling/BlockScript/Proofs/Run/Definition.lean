import BlockScript.Proofs.Run.Private

/-! Scripts called by name. A call finds the first definition of its own sprite, or else the first
of all, and it finds one just if the project lists the name. -/

namespace BlockScript

/-- The block creates the script called `name`, which it gives as a literal. -/
def Block.Defines (name : String) (b : Block) : Prop :=
  b.kind = .defineScript ∧ ∃ text, b.literalText? "name" = some text ∧ Text.trim text = name

theorem Block.defines_iff {name : String} {b : Block} : b.defines name = true ↔ b.Defines name := by
  rw [defines, Bool.and_eq_true, beq_iff_eq, beq_iff_eq, Option.map_eq_some_iff]
  rfl

theorem Block.not_defines_iff {name : String} {b : Block} :
    b.defines name = false ↔ ¬ b.Defines name := by
  rw [← defines_iff, Bool.not_eq_true]

namespace Script

/-- No block of the script creates the script called `name`. -/
def Lacks (name : String) (s : Script) : Prop :=
  ∀ b ∈ s.blocks, ¬ b.Defines name

/-- `b` is the first block of the script that creates the script called `name`. -/
def Creates (name : String) (s : Script) (b : Block) : Prop :=
  b.Defines name ∧ ∃ earlier later, s.blocks = earlier ++ b :: later ∧
    ∀ other ∈ earlier, ¬ other.Defines name

theorem definition?_eq_some_iff {s t : Script} {name : String} {b : Block} :
    s.definition? name = some (t, b) ↔ t = s ∧ s.Creates name b := by
  simp only [definition?, Option.map_eq_some_iff, Prod.mk.injEq, List.find?_eq_some_iff_append,
    Block.defines_iff, Bool.not_eq_true', Block.not_defines_iff, Creates]
  constructor
  · rintro ⟨b, hb, rfl, rfl⟩
    exact ⟨rfl, hb⟩
  · rintro ⟨rfl, hb⟩
    exact ⟨b, hb, rfl, rfl⟩

theorem definition?_eq_none_iff {s : Script} {name : String} :
    s.definition? name = none ↔ s.Lacks name := by
  simp only [definition?, Option.map_eq_none_iff, List.find?_eq_none, Bool.not_eq_true,
    Block.not_defines_iff, Lacks]

theorem mem_definedNames_iff {s : Script} {name : String} :
    name ∈ s.definedNames ↔ ¬ s.Lacks name := by
  simp only [Lacks, definedNames, List.mem_filterMap, Option.ite_none_right_eq_some,
    Option.map_eq_some_iff, Block.Defines, not_forall, not_not, exists_prop]

end Script

/-- The definition that a chain of `sprite` finds. -/
inductive Chosen (scripts : Table Script) (sprite name : String) : Script → Block → Prop
  | own {s : Script} {b : Block} (hs : scripts.get? sprite = some s) (hb : s.Creates name b) :
    Chosen scripts sprite name s b
  | foreign {s : Script} {b : Block} {earlier later : List Script}
    (hown : ∀ own ∈ scripts.get? sprite, own.Lacks name)
    (hs : scripts.values = earlier ++ s :: later) (hearlier : ∀ t ∈ earlier, t.Lacks name)
    (hb : s.Creates name b) : Chosen scripts sprite name s b

theorem Chosen.defines {scripts : Table Script} {sprite name : String} {s : Script} {b : Block}
    (h : Chosen scripts sprite name s b) : b.Defines name := by
  cases h with
  | own _ hb | foreign _ _ _ hb => exact hb.1

theorem findSome?_definition?_eq_some_iff {scripts : List Script} {name : String} {s : Script}
    {b : Block} :
    scripts.findSome? (·.definition? name) = some (s, b) ↔
      ∃ earlier later, scripts = earlier ++ s :: later ∧ (∀ t ∈ earlier, t.Lacks name) ∧
        s.Creates name b := by
  simp only [List.findSome?_eq_some_iff, Script.definition?_eq_some_iff,
    Script.definition?_eq_none_iff]
  constructor
  · rintro ⟨earlier, s, later, hs, ⟨rfl, hb⟩, hearlier⟩
    exact ⟨earlier, later, hs, hearlier, hb⟩
  · rintro ⟨earlier, later, hs, hearlier, hb⟩
    exact ⟨earlier, s, later, hs, ⟨rfl, hb⟩, hearlier⟩

theorem definition?_eq_some_iff {scripts : Table Script} {sprite name : String} {s : Script}
    {b : Block} :
    definition? scripts sprite name = some (s, b) ↔ Chosen scripts sprite name s b := by
  cases hown : (scripts.get? sprite).bind (·.definition? name) with
  | some found =>
    obtain ⟨own, hget, hfound⟩ := Option.bind_eq_some_iff.mp hown
    obtain ⟨s', b'⟩ := found
    obtain ⟨rfl, hb'⟩ := Script.definition?_eq_some_iff.mp hfound
    rw [definition?, hown, Option.some.injEq, Prod.mk.injEq]
    constructor
    · rintro ⟨rfl, rfl⟩
      exact .own hget hb'
    · intro h
      cases h with
      | own hs hb =>
        cases hget.symm.trans hs
        have hsame := Script.definition?_eq_some_iff.mpr ⟨rfl, hb⟩
        rw [hfound] at hsame
        cases hsame
        exact ⟨rfl, rfl⟩
      | foreign hlacks _ _ _ =>
        rw [Script.definition?_eq_none_iff.mpr (hlacks _ hget)] at hfound
        cases hfound
  | none =>
    have hlacks : ∀ own ∈ scripts.get? sprite, own.Lacks name := fun own hget => by
      rw [hget, Option.bind_some] at hown
      exact Script.definition?_eq_none_iff.mp hown
    rw [definition?, hown, findSome?_definition?_eq_some_iff]
    constructor
    · rintro ⟨earlier, later, hs, hearlier, hb⟩
      exact .foreign hlacks hs hearlier hb
    · intro h
      cases h with
      | own hs hb =>
        obtain ⟨hdef, earlier, later, hsplit, -⟩ := hb
        exact absurd hdef (hlacks s hs b (by rw [hsplit]; exact List.mem_append_cons_self))
      | foreign _ hs hearlier hb => exact ⟨_, _, hs, hearlier, hb⟩

theorem definition?_isSome_iff {scripts : Table Script} {sprite name : String} :
    (definition? scripts sprite name).isSome = true ↔ ∃ s ∈ scripts.values, ¬ s.Lacks name := by
  cases hown : (scripts.get? sprite).bind (·.definition? name) with
  | some found =>
    obtain ⟨own, hget, hfound⟩ := Option.bind_eq_some_iff.mp hown
    rw [definition?, hown]
    refine iff_of_true rfl ⟨own, List.mem_map_of_mem (Table.mem_of_get? hget), fun hlacks => ?_⟩
    rw [Script.definition?_eq_none_iff.mpr hlacks] at hfound
    cases hfound
  | none =>
    rw [definition?, hown, List.findSome?_isSome_iff]
    simp only [← Script.definition?_eq_none_iff, Option.isSome_iff_ne_none, ne_eq]

/-- Names are entered once, and blank ones never. -/
theorem collected_names (given names : List String) (h : names.Nodup) :
    let all := given.foldl
      (fun names name => if name = "" ∨ name ∈ names then names else names ++ [name]) names
    all.Nodup ∧ ∀ n, n ∈ all ↔ n ∈ names ∨ n ≠ "" ∧ n ∈ given := by
  induction given generalizing names with
  | nil => exact ⟨h, fun n => by simp⟩
  | cons name given ih =>
    rw [List.foldl_cons]
    by_cases hskip : name = "" ∨ name ∈ names
    · rw [if_pos hskip]
      obtain ⟨hnodup, hmem⟩ := ih names h
      refine ⟨hnodup, fun n => (hmem n).trans ?_⟩
      rw [List.mem_cons]
      constructor
      · tauto
      · rintro (hn | ⟨hne, rfl | hn⟩)
        · exact .inl hn
        · exact .inl (hskip.resolve_left hne)
        · exact .inr ⟨hne, hn⟩
    · rw [if_neg hskip]
      obtain ⟨hblank, hnew⟩ := not_or.mp hskip
      obtain ⟨hnodup, hmem⟩ := ih (names ++ [name])
        (List.nodup_append.mpr ⟨h, List.nodup_singleton name, by
          rintro a ha _ hb rfl
          exact hnew (List.mem_singleton.mp hb ▸ ha)⟩)
      refine ⟨hnodup, fun n => (hmem n).trans ?_⟩
      rw [List.mem_append, List.mem_singleton, List.mem_cons]
      constructor
      · rintro ((hn | rfl) | hn)
        · exact .inl hn
        · exact .inr ⟨hblank, .inl rfl⟩
        · exact .inr ⟨hn.1, .inr hn.2⟩
      · tauto

namespace Project

theorem definedScripts_nodup (p : Project) : p.definedScripts.Nodup :=
  (collected_names _ [] List.nodup_nil).1

theorem mem_definedScripts_iff {p : Project} {name : String} :
    name ∈ p.definedScripts ↔ name ≠ "" ∧ ∃ s ∈ p.scripts.values, ¬ s.Lacks name := by
  rw [definedScripts, (collected_names _ [] List.nodup_nil).2]
  simp only [List.not_mem_nil, false_or, List.mem_flatMap, Script.mem_definedNames_iff]

end Project

namespace World

/-- What a chain of `sprite` finds when it is to run the script `text`. -/
def callee? (w : World) (scripts : Table Script) (sprite text : String) (depth : Nat) :
    Option (Script × Block) :=
  if Text.trim text = "" ∨ w.options.maxDepth ≤ depth then none
  else definition? scripts sprite (Text.trim text)

end World

/-- The body of the script that `b` creates, as a task. -/
def Script.bodyTask (s : Script) (b : Block) (depth : Nat) : Task :=
  match Layout.firstChild s.blocks b with
  | some first => .block s.blocks first (depth + 1)
  | none => .resume

namespace World

/-- What comes of a call of the script `name`, after what was found. -/
def proceed (w : World) (name : String) (depth : Nat) : Option (Script × Block) → World × Task
  | some (s, b) => (w, s.bodyTask b depth)
  | none => (if name = "" then w else w.note (.noScript name), .resume)

theorem call_eq {w : World} {depth : Nat} (h : depth < w.options.maxDepth) (scripts : Table Script)
    (sprite text : String) :
    w.call scripts sprite text depth =
      w.proceed (Text.trim text) depth (w.callee? scripts sprite text depth) := by
  rw [call, callee?]
  by_cases hblank : Text.trim text = ""
  · rw [if_pos hblank, if_pos (.inl hblank), proceed, if_pos hblank]
  · have hbelow : ¬ w.options.maxDepth ≤ depth := Nat.not_le.mpr h
    rw [if_neg hblank, if_neg hbelow, if_neg (not_or.mpr ⟨hblank, hbelow⟩)]
    cases hfound : definition? scripts sprite (Text.trim text) with
    | none => rw [proceed, if_neg hblank]
    | some found =>
      obtain ⟨s, b⟩ := found
      simp only [proceed, Script.bodyTask]
      cases Layout.firstChild s.blocks b <;> rfl

theorem callee?_eq_some_iff {w : World} {depth : Nat} (h : depth < w.options.maxDepth)
    {scripts : Table Script} {sprite text : String} {s : Script} {b : Block} :
    w.callee? scripts sprite text depth = some (s, b) ↔
      Text.trim text ≠ "" ∧ Chosen scripts sprite (Text.trim text) s b := by
  rw [callee?, Option.ite_none_left_eq_some, definition?_eq_some_iff, not_or]
  exact and_congr_left' (and_iff_left (Nat.not_le.mpr h))

theorem callee?_isSome_iff {w : World} {depth : Nat} (h : depth < w.options.maxDepth)
    {p : Project} {sprite text : String} :
    (w.callee? p.scripts sprite text depth).isSome = true ↔
      Text.trim text ≠ "" ∧ Text.trim text ∈ p.definedScripts := by
  rw [Project.mem_definedScripts_iff, ← and_assoc, and_self, callee?]
  by_cases hblank : Text.trim text = ""
  · rw [if_pos (.inl hblank)]
    exact iff_of_false nofun fun hn => hn.1 hblank
  · rw [if_neg (not_or.mpr ⟨hblank, Nat.not_le.mpr h⟩), definition?_isSome_iff]
    exact (and_iff_right hblank).symm

end World

namespace Machine

/-- The scripts of a project are only edited when no run is going on. -/
theorem next?_scripts {m m' : Machine} (hm : m.Tidy) {e : Event} (h : m.next? e = some m') :
    m'.world.project.scripts = m.world.project.scripts ∨ m'.runs = [] := by
  cases e with
  | edit e =>
    simp only [next?] at h
    split at h
    · rename_i hr
      obtain ⟨p, -, rfl⟩ := Option.map_eq_some_iff.mp h
      exact .inr (List.isEmpty_iff.mp hr)
    · cases h
  | change id f =>
    obtain ⟨p, hp, rfl⟩ := Option.map_eq_some_iff.mp h
    obtain ⟨s, -, rfl⟩ := Project.editSprite_cases hp
    exact .inl rfl
  | obey c =>
    cases h
    exact .inl (obey_sameHost hm c).scripts
  | rewind =>
    simp only [next?] at h
    split at h
    · cases h
      exact .inl rfl
    · cases h
  | advance time =>
    obtain ⟨-, rfl⟩ := next?_advance h
    exact .inl rfl
  | _ =>
    have hsame := (next?_outcome hm h).sameHost rfl (by simp)
    exact .inl hsame.scripts

theorem Outcome.run_scripts {m m' : Machine} {e : Event} (h : Outcome m e m')
    (hm : ∀ r ∈ m.runs, r.scripts = m.world.project.scripts) :
    ∀ r ∈ m'.runs, r.scripts = m.world.project.scripts := by
  have hmid {R₁ R₂ : List Run} {r r' : Run} (hr : m.runs = R₁ ++ r :: R₂)
      (hr' : r'.scripts = r.scripts) :
      ∀ s ∈ R₁ ++ r' :: R₂, s.scripts = m.world.project.scripts := by
    rw [hr, List.forall_mem_append, List.forall_mem_cons] at hm
    rw [List.forall_mem_append, List.forall_mem_cons]
    exact ⟨hm.1, hr'.trans hm.2.1, hm.2.2⟩
  cases h with
  | host | tick | wakes | rests => exact hm
  | join | stop | answer =>
    simp only [mapRuns, mapWorld, List.forall_mem_map]
    exact hm
  | opens h =>
    simp only [opened, List.forall_mem_append, List.forall_mem_singleton]
    exact ⟨hm, rfl⟩
  | begins hr | handles hr => exact hmid hr rfl
  | resumes hr =>
    simp only [List.forall_mem_map]
    exact hmid hr rfl
  | finishes hr =>
    rw [hr, List.forall_mem_append, List.forall_mem_cons] at hm
    simp only [List.forall_mem_map, List.forall_mem_append]
    exact ⟨hm.1, hm.2.2⟩

theorem run_scripts_after {p : Project} {options : Options} {services : Services}
    {es : List Event} {m : Machine} (h : (create p options services).after es = some m) :
    ∀ r ∈ m.runs, r.scripts = m.world.project.scripts := by
  refine after_induction
    (P := fun _ m => ∀ r ∈ m.runs, r.scripts = m.world.project.scripts)
    (fun r hr => absurd hr List.not_mem_nil) ?_ h
  intro es m e m' hb ih he
  have hm := (create_tidy p options services).after hb
  rcases next?_scripts hm he with hsame | hnone
  · have hruns := (next?_outcome hm he).run_scripts (by
      simp only [asleep, lanes, List.forall_mem_map]
      exact ih)
    simp only [asleep, lanes, List.forall_mem_map] at hruns
    intro r hr
    exact (hruns r hr).trans hsame.symm
  · intro r hr
    rw [hnone] at hr
    exact absurd hr List.not_mem_nil

end Machine

theorem World.entered_options (w : World) (sprite : String) (b : Block) (depth : Nat) :
    (w.entered sprite b depth).options = w.options := by
  obtain ⟨dice, log, he⟩ := w.entered_eq sprite b depth
  rw [he]

namespace Chain

theorem step_runScript {w : World} {c : Chain} {blocks : List Block} {b : Block} {depth : Nat}
    (ht : c.task = .block blocks b depth) (hb : b.kind = .runScript) (hr : w.running = true)
    (hdepth : depth < w.options.maxDepth) (scripts : Table Script) :
    let n := ((w.entered c.sprite b depth).read c.sprite b "name").toText
    let after := (w.entered c.sprite b depth).proceed (Text.trim n) depth
      (w.callee? scripts c.sprite n depth)
    c.step scripts w = c.inside blocks b depth (after.1, none, after.2) := by
  have hoptions := w.entered_options c.sprite b depth
  have hcall := World.call_eq (w := w.entered c.sprite b depth) (hoptions ▸ hdepth) scripts c.sprite
    ((w.entered c.sprite b depth).read c.sprite b "name").toText
  rw [step_entered ht hr]
  simp only [World.perform, hb, hcall, World.callee?, hoptions]

end Chain

namespace Machine

/-- A chain that is to run a script finds a definition just if the project lists the name, each
name once. It goes on with the body of the first definition of its own sprite, or else of the
first of all. -/
theorem run_script_finds_listed {p : Project} {options : Options} {services : Services}
    {es : List Event} {m : Machine} (h : (create p options services).after es = some m) {r : Run}
    (hr : r ∈ m.runs) {w : World} {depth : Nat} (hdepth : depth < w.options.maxDepth)
    (sprite n : String) :
    m.world.project.definedScripts.Nodup ∧
    ((w.callee? r.scripts sprite n depth).isSome = true ↔
      Text.trim n ≠ "" ∧ Text.trim n ∈ m.world.project.definedScripts) ∧
    (∀ s b, w.callee? r.scripts sprite n depth = some (s, b) →
      b.Defines (Text.trim n) ∧ Chosen m.world.project.scripts sprite (Text.trim n) s b) ∧
    ∀ (c : Chain) (blocks : List Block) (b : Block), c.sprite = sprite →
      c.task = .block blocks b depth → b.kind = .runScript → w.running = true →
      ((w.entered sprite b depth).read sprite b "name").toText = n →
      let after := (w.entered sprite b depth).proceed (Text.trim n) depth
        (w.callee? r.scripts sprite n depth)
      c.step r.scripts w = c.inside blocks b depth (after.1, none, after.2) := by
  rw [run_scripts_after h r hr]
  refine ⟨m.world.project.definedScripts_nodup, World.callee?_isSome_iff hdepth, ?_, ?_⟩
  · intro s b hfound
    have hchosen := ((World.callee?_eq_some_iff hdepth).mp hfound).2
    exact ⟨hchosen.defines, hchosen⟩
  · rintro c blocks b rfl ht hb hrunning rfl
    exact Chain.step_runScript ht hb hrunning hdepth _

/-- A script that another sprite may borrow, below one that has no name. -/
def lendsGo : Script :=
  ⟨[⟨"c", .defineScript, ⟨0, 0⟩, [("name", .literal (.text "  "))]⟩,
    ⟨"d", .defineScript, ⟨0, 80⟩, [("name", .literal (.text " go "))]⟩], 2⟩

def lending : List Event :=
  [.edit (.addSprite "🐱"), .edit (.addSprite "🐶"),
    .edit (.editScript "sprite-2" fun _ => .ok (lendsGo, ())), .obey .flag]

theorem run_script_finds_listed_go :
    ∃ m, (create .empty {} {}).after lending = some m ∧
      m.world.project.definedScripts = ["go"] ∧
      ∃ r ∈ m.runs, (m.world.callee? r.scripts "sprite-1" "go\n" 0).isSome = true ∧
        (m.world.callee? r.scripts "sprite-1" " " 0).isSome = false := by
  have he : ((create .empty {} {}).after lending).bind (fun m =>
      (m.run? 0).map fun _ => (m.world.project.definedScripts, m.world.options.maxDepth)) =
      some (["go"], 64) := by
    decide +kernel
  obtain ⟨m, hm, he⟩ := Option.bind_eq_some_iff.mp he
  obtain ⟨r, hr, he⟩ := Option.map_eq_some_iff.mp he
  simp only [Prod.mk.injEq] at he
  have hmem : r ∈ m.runs := List.mem_of_find?_eq_some hr
  have hdepth : 0 < m.world.options.maxDepth := by omega
  obtain ⟨-, hgo, -⟩ := run_script_finds_listed hm hmem hdepth "sprite-1" "go\n"
  obtain ⟨-, hblank, -⟩ := run_script_finds_listed hm hmem hdepth "sprite-1" " "
  refine ⟨m, hm, he.1, r, hmem, hgo.mpr ?_, ?_⟩
  · rw [he.1]
    decide
  · rw [← Bool.not_eq_true, hblank]
    exact fun hn => hn.1 (by decide)

end Machine

end BlockScript

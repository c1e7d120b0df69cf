import BlockScript.Proofs.Run.Act
import BlockScript.Proofs.Text.Blank

/-! Variables by their names. Nothing takes a variable or a monitor away or changes their order, so
the variables stand in the order in which they came about, with the answer first, and a picker
always starts with the oldest of the others. -/

namespace BlockScript

namespace Project

theorem Acts.keepsNames {p p' : Project} (h : p.Acts p') : p.stage.KeepsNames p'.stage := by
  induction h with
  | refl => exact .refl _
  | tail _ ha ih =>
    refine ih.trans ?_
    cases ha with
    | aside h => exact h.names
    | change id hf => exact Stage.updateSprite_keepsNames ..
    | create kind prompt texture => exact .of_eq rfl rfl
    | hush => exact .of_eq rfl rfl

theorem Dealt.keepsNames {p p' : Project} {e : Event} (h : p.Dealt e p') :
    p.stage.KeepsNames p'.stage := by
  cases h with
  | hand he hs => exact Stage.updateSprite_keepsNames ..
  | acts he h => exact h.keepsNames
  | _ => exact .of_eq rfl rfl

theorem variableNames_prefix {p p' : Project} (h : p.stage.KeepsNames p'.stage) :
    p.variableNames <+: p'.variableNames :=
  h.bound.filter _

/-- What the creation of a variable comes to. -/
structure Created (p p' : Project) (given name : String) : Prop where
  name_eq : name = Text.trim given
  trimmed : Text.trim name = name
  nonblank : name ≠ ""
  unreserved : Text.sameLetters name answerName = false
  fresh : name ∉ p.stage.«variables».keys
  value : p'.stage.«variables».get? name = some (.number 0)
  hidden : p'.stage.monitors.get? name = some false

theorem createVariable_created {p p' : Project} {given name : String}
    (h : p.createVariable given = .ok (p', name)) : p.Created p' given name := by
  simp only [createVariable] at h
  split at h
  · cases h
  · rename_i hblank
    split at h
    · cases h
    · rename_i hreserved
      split at h
      · cases h
      · rename_i hfree
        cases h
        constructor
        · rfl
        · exact Text.trim_trim given
        · exact hblank
        · simpa using hreserved
        · exact Table.get?_eq_none_iff.mp hfree
        · exact (Table.get?_insert ..).trans (if_pos rfl)
        · exact (Table.get?_insert ..).trans (if_pos rfl)

/-- No block has two parameters of one name. -/
theorem params_nodup (kind : BlockKind) : (kind.params.map (·.name)).Nodup := by
  cases kind <;> decide

theorem placeBlock_bound {p p' : Project} {sprite : String} {kind : BlockKind} {drop : Point}
    {b : Block} (h : p.placeBlock sprite kind drop = .ok (p', b)) {spec : ParamSpec}
    (hs : spec ∈ kind.params) {choice : String} (hc : p.firstChoice? kind spec = some choice) :
    b.params.get? spec.name = some (.literal (.text choice)) ∧
      ∃ s, p'.script? sprite = some s ∧ b ∈ s.blocks := by
  simp only [placeBlock, editScript] at h
  split at h
  · cases h
  · cases h
    refine ⟨Table.get?_extend ?_ ?_, _, (Table.get?_insert ..).trans (if_pos rfl), ?_⟩
    · exact List.mem_filterMap.mpr ⟨spec, hs, by rw [hc]; rfl⟩
    · intro c hmem hname
      obtain ⟨other, ho, he⟩ := List.mem_filterMap.mp hmem
      obtain ⟨choice', hchoice, rfl⟩ := Option.map_eq_some_iff.mp he
      have hsame : other = spec := List.inj_on_of_nodup_map (params_nodup kind) ho hs hname
      rw [hsame, hc] at hchoice
      cases hchoice
      rfl
    · simp [Script.place]

end Project

namespace Machine

theorem keepsNames_after {m m' : Machine} (hm : m.Tidy) {es : List Event}
    (h : m.after es = some m') : m.stage.KeepsNames m'.stage := by
  refine after_induction (P := fun _ m' => m.stage.KeepsNames m'.stage) (.refl _) ?_ h
  intro es m₁ e m₂ hes ih he
  exact ih.trans (next?_dealt (hm.after hes) he).keepsNames

theorem head?_of_prefix {names names' : List String} {name : String} (h : names <+: names')
    (hn : names.head? = some name) : names'.head? = some name := by
  obtain ⟨rest, rfl⟩ := h
  rw [List.head?_append, hn, Option.some_or]

/-- Variables and monitors are never taken away and keep the order in which they came about, after
the answer. So the first variable is always the same, and a picker starts with it. -/
theorem variables_append_only {p : Project} (hp : p = .empty ∨ p = .initial) {options : Options}
    {services : Services} {es es' : List Event} {m m' : Machine}
    (h : (create p options services).after es = some m) (h' : m.after es' = some m') :
    m.stage.«variables».keys <+: m'.stage.«variables».keys ∧
    m.stage.monitors.keys <+: m'.stage.monitors.keys ∧
    m.stage.«variables».keys.head? = some answerName ∧
    m.world.project.variableNames <+: m'.world.project.variableNames ∧
    (∀ first ∈ m.world.project.variableNames.head?, ∀ sprite kind drop p' b,
      m'.world.project.placeBlock sprite kind drop = .ok (p', b) →
      kind.category = .«variables» →
      ∀ spec ∈ kind.params, spec.kind = .variableDropdown →
        b.params.get? spec.name = some (.literal (.text first)) ∧
          ∃ s, p'.script? sprite = some s ∧ b ∈ s.blocks) ∧
    ∀ given p' name, m.world.project.createVariable given = .ok (p', name) →
      m.world.project.Created p' given name := by
  have htidy := create_tidy p options services
  have hnames := keepsNames_after (htidy.after h) h'
  have hvariables := Project.variableNames_prefix hnames
  refine ⟨hnames.bound, hnames.monitors, ?_, hvariables, ?_, ?_⟩
  · have hstart : p.stage.«variables».keys.head? = some answerName := by
      rcases hp with rfl | rfl <;> rfl
    exact head?_of_prefix (keepsNames_after htidy h).bound hstart
  · intro first hfirst sprite kind drop p' b hb hk spec hs hd
    have hchoice : m'.world.project.firstChoice? kind spec = some first := by
      simp only [Project.firstChoice?, hd, if_pos hk]
      exact head?_of_prefix hvariables hfirst
    exact Project.placeBlock_bound hb hs hchoice
  · intro given p' name hc
    exact Project.createVariable_created hc

/-- A variable is created, and the host binds it and another one. -/
def namings : List Event :=
  [.edit (.createVariable " score "), .obey (.setVariable "lives" (.number 3)),
    .obey (.changeVariable "score" 5), .obey (.toggleMonitor "lives")]

theorem variables_append_only_score :
    ∃ m m', (create .initial {} {}).after (namings.take 1) = some m ∧
      m.after (namings.drop 1) = some m' ∧
      m.world.project.variableNames = ["score"] ∧
      m'.world.project.variableNames = ["score", "lives"] ∧
      m.world.project.variableNames <+: m'.world.project.variableNames ∧
      ∃ p' b, m'.world.project.placeBlock "sprite-1" .setVariable .origin = .ok (p', b) ∧
        b.params.get? "variable" = some (.literal (.text "score")) := by
  have hfirst : ((create .initial {} {}).after (namings.take 1)).map (fun m =>
      m.world.project.variableNames) = some ["score"] := by
    decide +kernel
  obtain ⟨m, hm, hnames⟩ := Option.map_eq_some_iff.mp hfirst
  have hboth : ((create .initial {} {}).after namings).map (fun m =>
      (m.world.project.variableNames,
        (m.world.project.placeBlock "sprite-1" .setVariable .origin).isOk)) =
      some (["score", "lives"], true) := by
    decide +kernel
  obtain ⟨m', hm', he⟩ := Option.map_eq_some_iff.mp hboth
  simp only [Prod.mk.injEq] at he
  rw [← List.take_append_drop 1 namings] at hm'
  obtain ⟨m₁, hm₁, hm'⟩ := after_append_iff.mp hm'
  cases hm.symm.trans hm₁
  obtain ⟨-, -, -, hprefix, hpicker, -⟩ := variables_append_only (.inr rfl) hm hm'
  refine ⟨m, m', hm, hm', hnames, he.1, hprefix, ?_⟩
  cases hp : m'.world.project.placeBlock "sprite-1" .setVariable .origin with
  | error e =>
    rw [hp] at he
    cases he.2
  | ok placed =>
    obtain ⟨p', b⟩ := placed
    exact ⟨p', b, rfl, (hpicker "score" (by rw [hnames]; rfl) _ _ _ _ _ hp rfl _
      List.mem_cons_self rfl).1⟩

end Machine

end BlockScript

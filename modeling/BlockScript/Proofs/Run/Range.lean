import BlockScript.Proofs.Run.Account
import BlockScript.Proofs.Run.Act

/-! Sprites keep within their bounds through every event. The one way out is a change by hand that
asks for a volume of NaN: no clamp catches it, and no block can bring it about. -/

namespace BlockScript

namespace Stage

def InBounds (s : Stage) : Prop :=
  ∀ b ∈ s.sprites, b.2.InBounds

theorem updateSprite_inBounds_iff {s : Stage} (h : s.InBounds) {id : String} {a : Sprite}
    (ha : s.sprite? id = some a) (f : Sprite → Sprite) :
    (s.updateSprite id f).InBounds ↔ (f a).volume.isNaN = false := by
  rw [InBounds, updateSprite_sprites ha]
  constructor
  · intro hb
    by_contra hnan
    have hv := (hb _ (Table.mem_insert_self ..)).volume.1
    have hkept : (f a).normalize.volume.isNaN = true := clampVolume_isNaN (by simpa using hnan)
    rw [(Number.isNaN_of_le hv).2] at hkept
    cases hkept
  · intro hv
    exact Table.forall_insert (Sprite.normalize_inBounds hv) h

theorem updateSprite_inBounds {s : Stage} (h : s.InBounds) (id : String) {f : Sprite → Sprite}
    (hf : Sprite.Mild f) : (s.updateSprite id f).InBounds := by
  cases ha : s.sprite? id with
  | none =>
    rw [updateSprite_of_none ha]
    exact h
  | some a =>
    have hin := h _ (Table.mem_of_get? ha)
    exact (updateSprite_inBounds_iff h ha f).mpr (hf.volume a hin.volume_isFinite)

end Stage

theorem Project.Act.inBounds {p p' : Project} (h : p.Act p') (hp : p.stage.InBounds) :
    p'.stage.InBounds := by
  cases h with
  | aside h => rwa [Stage.InBounds, h.sprites]
  | change id hf => exact Stage.updateSprite_inBounds hp id hf
  | create kind prompt texture => exact hp
  | hush => exact Table.forall_mapValues fun b hb => (hp b hb).hush

theorem Project.Acts.inBounds {p p' : Project} (h : p.Acts p') (hp : p.stage.InBounds) :
    p'.stage.InBounds := by
  induction h with
  | refl => exact hp
  | tail _ ha ih => exact ha.inBounds ih

/-- Whether the event is a change by hand that asks for a volume of NaN. -/
def Event.spoilsVolume (s : Stage) (e : Event) : Bool :=
  e.byHand?.any fun (id, f) => (s.sprite? id).any fun a => (f a).volume.isNaN

theorem Project.Dealt.inBounds_iff {p p' : Project} {e : Event} (h : p.Dealt e p')
    (hp : p.stage.InBounds) : p'.stage.InBounds ↔ e.spoilsVolume p.stage = false := by
  cases h with
  | adds costume =>
    refine iff_of_true (Table.forall_insert ?_ hp) rfl
    exact Sprite.create_inBounds ..
  | deletes h => exact iff_of_true (fun b hb => hp b (List.mem_of_mem_filter hb)) rfl
  | hand he hs =>
    rw [Stage.updateSprite_inBounds_iff hp hs]
    simp only [Event.spoilsVolume, he, hs, Option.any_some]
  | reset =>
    refine iff_of_true (Table.forall_mapValues fun b _ => ?_) rfl
    exact Sprite.create_inBounds ..
  | acts he h =>
    refine iff_of_true (Acts.inBounds h hp) ?_
    unfold Event.spoilsVolume
    cases hh : e.byHand? with
    | none => rfl
    | some change => simp only [Option.any_some, he change.1 change.2 hh, Option.any_none]

namespace Machine

/-- The changes by hand that ask for a volume of NaN. -/
def spoilersBy (m : Machine) (e : Event) (_ : Machine) : List Event :=
  if e.spoilsVolume m.stage then [e] else []

theorem spoilersBy_eq_nil {m m' : Machine} {e : Event} :
    spoilersBy m e m' = [] ↔ e.spoilsVolume m.stage = false := by
  unfold spoilersBy
  split
  · rename_i he
    simp [he]
  · rename_i he
    simpa using he

/-- Bounds hold at every moment so far just if no change by hand has spoilt a volume. -/
theorem inBounds_throughout_iff {m₀ m : Machine} (hm : m₀.Tidy) (h₀ : m₀.stage.InBounds)
    {es : List Event} (h : m₀.after es = some m) :
    (∀ before m', before <+: es → m₀.after before = some m' → m'.stage.InBounds) ↔
      m₀.gather spoilersBy es = [] := by
  refine after_induction (P := fun es _ =>
    (∀ before m', before <+: es → m₀.after before = some m' → m'.stage.InBounds) ↔
      m₀.gather spoilersBy es = []) ?_ ?_ h
  · refine iff_of_true (fun before m' hb hm' => ?_) rfl
    rw [List.prefix_nil.mp hb] at hm'
    cases hm'
    exact h₀
  · intro es m e m' hes ih he
    -- The last event tells about bounds only from a stage that has them, hence all moments at once.
    have hdealt := next?_dealt (hm.after hes) he
    rw [gather_snoc hes he, List.append_eq_nil_iff, ← ih, spoilersBy_eq_nil]
    constructor
    · intro hall
      have hbefore : ∀ before m', before <+: es → m₀.after before = some m' → m'.stage.InBounds :=
        fun before m' hb => hall before m' (hb.trans (List.prefix_append ..))
      have hlast := hall _ m' List.prefix_rfl (after_snoc_iff.mpr ⟨m, hes, he⟩)
      exact ⟨hbefore, (hdealt.inBounds_iff (hbefore es m List.prefix_rfl hes)).mp hlast⟩
    · rintro ⟨hbefore, hspoil⟩ before m'' hb hm''
      rcases List.prefix_concat_iff.mp hb with rfl | hb
      · obtain ⟨m₁, h₁, he'⟩ := after_snoc_iff.mp hm''
        cases hes.symm.trans h₁
        cases he.symm.trans he'
        exact (hdealt.inBounds_iff (hbefore es m List.prefix_rfl hes)).mpr hspoil
      · exact hbefore before m'' hb hm''

/-- Every sprite keeps its bounds but for a volume of NaN, which comes about only by a change by
hand that asks for it. -/
theorem sprites_in_bounds_unless_volume_nan {options : Options} {services : Services}
    {es : List Event} {m : Machine} (h : (create .empty options services).after es = some m) :
    (∀ b ∈ m.stage.sprites, b.2.InBounds ∨
      b.2.volume.isNaN = true ∧ { b.2 with volume := 0 }.InBounds) ∧
    ((∀ before m', before <+: es → (create .empty options services).after before = some m' →
        m'.stage.InBounds) ↔
      (create .empty options services).gather spoilersBy es = []) := by
  have hreach : m.Reachable := ⟨options, services, es, h⟩
  refine ⟨fun b hb => ?_, ?_⟩
  · have hin := hreach.accounted.inRange b hb
    by_cases hv : b.2.volume.isNaN = true
    · exact .inr ⟨hv, hin.with_volume⟩
    · exact .inl (hin.inBounds (by simpa using hv))
  · refine inBounds_throughout_iff (create_tidy ..) ?_ h
    exact fun b hb => absurd hb List.not_mem_nil

def editedSprite (edit : SpriteEdit) : List Event :=
  [.edit (.addSprite defaultCostume), .obey (.editSprite "sprite-1" edit)]

def wildEdit : SpriteEdit :=
  { x := some Number.infinity, y := some Number.nan, rotation := some 725, size := some (-5),
    volume := some Number.infinity, penSize := some Number.nan }

theorem sprites_in_bounds_after_wild_edit :
    ∃ m, (create .empty {} {}).after (editedSprite wildEdit) = some m ∧
      m.stage.sprites.keys = ["sprite-1"] ∧ m.stage.InBounds := by
  have he : ((create .empty {} {}).after (editedSprite wildEdit)).map (fun m =>
      (m.stage.sprites.keys,
        ((create .empty {} {}).gather spoilersBy (editedSprite wildEdit)).length)) =
      some (["sprite-1"], 0) := by
    decide +kernel
  obtain ⟨m, hm, he⟩ := Option.map_eq_some_iff.mp he
  simp only [Prod.mk.injEq, List.length_eq_zero_iff] at he
  have hall := (sprites_in_bounds_unless_volume_nan hm).2.mpr he.2
  exact ⟨m, hm, he.1, hall _ m List.prefix_rfl hm⟩

theorem volume_nan_by_hand :
    ∃ m, (create .empty {} {}).after (editedSprite { volume := some Number.nan }) = some m ∧
      (m.stage.sprite? "sprite-1").map (·.volume) = some Number.nan ∧ ¬ m.stage.InBounds := by
  have he : ((create .empty {} {}).after (editedSprite { volume := some Number.nan })).map (fun m =>
      (m.stage.sprite? "sprite-1").map (·.volume)) = some (some Number.nan) := by
    decide +kernel
  obtain ⟨m, hm, he⟩ := Option.map_eq_some_iff.mp he
  refine ⟨m, hm, he, fun hall => ?_⟩
  obtain ⟨a, ha, hv⟩ := Option.map_eq_some_iff.mp he
  have hlow := (hall _ (Table.mem_of_get? ha)).volume.1
  rw [hv] at hlow
  exact absurd hlow (by decide)

end Machine

end BlockScript

import BlockScript.Proofs.Stage.Sprite
import BlockScript.Proofs.Table

/-! What the host can change on a stage, and how sprites stay in range. -/

namespace BlockScript

namespace Stage

def InRange (s : Stage) : Prop :=
  ∀ b ∈ s.sprites, b.2.InRange

theorem updateSprite_of_none {s : Stage} {id : String} (h : s.sprite? id = none)
    (f : Sprite → Sprite) : s.updateSprite id f = s := by
  simp only [updateSprite, h]

theorem updateSprite_sprites {s : Stage} {id : String} {a : Sprite} (h : s.sprite? id = some a)
    (f : Sprite → Sprite) :
    (s.updateSprite id f).sprites = s.sprites.insert id (f a).normalize := by
  simp only [updateSprite, h]

theorem updateSprite_sprite? (s : Stage) (id other : String) (f : Sprite → Sprite) :
    (s.updateSprite id f).sprite? other =
      if other = id then (s.sprite? id).map fun b => (f b).normalize else s.sprite? other := by
  unfold updateSprite
  cases hs : s.sprite? id with
  | none =>
    by_cases h : other = id
    · simp [h, hs]
    · simp [h]
  | some b =>
    simp only [sprite?, Table.get?_insert, Option.map_some]

theorem updateSprite_inRange {s : Stage} (h : s.InRange) (id : String) (f : Sprite → Sprite) :
    (s.updateSprite id f).InRange := by
  unfold updateSprite
  split
  · exact h
  · exact Table.forall_insert (Sprite.normalize_inRange _) h

theorem updateSprite_prompts (s : Stage) (id : String) (f : Sprite → Sprite) :
    (s.updateSprite id f).prompts = s.prompts := by
  unfold updateSprite
  split <;> rfl

theorem updateSprite_generating (s : Stage) (id : String) (f : Sprite → Sprite) :
    (s.updateSprite id f).generating = s.generating := by
  unfold updateSprite
  split <;> rfl

theorem updateSprite_objects (s : Stage) (id : String) (f : Sprite → Sprite) :
    (s.updateSprite id f).objects = s.objects := by
  unfold updateSprite
  split <;> rfl

/-- A stage that the host has changed: prompts and texture requests are as before, and sprites
stay in range. -/
structure Touched (s s' : Stage) : Prop where
  prompts : s'.prompts = s.prompts
  generating : s'.generating = s.generating
  inRange : s.InRange → s'.InRange

theorem Touched.of_sprites {s s' : Stage} (hp : s'.prompts = s.prompts)
    (hg : s'.generating = s.generating) (hs : s'.sprites = s.sprites) : s.Touched s' :=
  ⟨hp, hg, fun h => by rwa [InRange, hs]⟩

theorem updateSprite_touched (s : Stage) (id : String) (f : Sprite → Sprite) :
    s.Touched (s.updateSprite id f) :=
  ⟨s.updateSprite_prompts id f, s.updateSprite_generating id f,
    fun h => updateSprite_inRange h id f⟩

theorem reset_touched (s : Stage) : s.Touched s.reset :=
  ⟨rfl, rfl, fun _ => Table.forall_mapValues fun b _ => b.2.reset_inRange⟩

end Stage

end BlockScript

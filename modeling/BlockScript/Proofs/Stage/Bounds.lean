import BlockScript.Proofs.Number.Defined
import BlockScript.Proofs.Stage.Touch
import BlockScript.Run.Execute

/-! The bounds of the numbers of a sprite. A sprite in range keeps them all unless its volume is
NaN, which no block can bring about. -/

namespace BlockScript

open Number

namespace Sprite

def numbers (s : Sprite) : List Float :=
  [s.position.x, s.position.y, s.rotation, s.size, s.volume, s.pen.size]

structure InBounds (s : Sprite) : Prop where
  x : s.position.x.isFinite = true
  y : s.position.y.isFinite = true
  rotation : 0 ≤ s.rotation ∧ s.rotation < 360
  size : 0 ≤ s.size
  volume : 0 ≤ s.volume ∧ s.volume ≤ 100
  penSize : 1 ≤ s.pen.size
  defined : ∀ x ∈ s.numbers, x.isNaN = false

end Sprite

theorem le_of_notNegative {x : Float} (h : NotNegative x.toModel.unpack) : 0 ≤ x := by
  rw [le_iff]
  generalize x.toModel.unpack = u at h
  cases h with
  | zero | infinity | finite => rfl

theorem normalizeRotation_bounds (d : Float) :
    0 ≤ normalizeRotation d ∧ normalizeRotation d < 360 := by
  have hzero : (0 : Float) ≤ 0 ∧ (0 : Float) < 360 := by decide
  unfold normalizeRotation
  split
  · rename_i hd
    have hlow : 0 ≤ wrap d 360 := le_of_notNegative (wrap_notNegative hd)
    dsimp only
    split
    · exact hzero
    · rename_i hr
      have hturn : (360 : Float).isNaN = false := by decide
      exact ⟨hlow, (lt_or_le (isNaN_of_le hlow).2 hturn).resolve_right hr⟩
  · exact hzero

theorem le_atLeast {x bound : Float} (h : bound ≤ bound) : bound ≤ atLeast x bound := by
  unfold atLeast
  split
  · rename_i hx
    exact le_of_lt hx
  · exact h

theorem clampVolume_bounds {x : Float} (h : x.isNaN = false) :
    0 ≤ clamp x 0 100 ∧ clamp x 0 100 ≤ 100 := by
  have hlow : (0 : Float) ≤ 0 ∧ (0 : Float) ≤ 100 := by decide
  have hhigh : (0 : Float) ≤ 100 ∧ (100 : Float) ≤ 100 := by decide
  unfold clamp
  split
  · exact hlow
  · rename_i h0
    split
    · exact hhigh
    · rename_i h1
      exact ⟨(lt_or_le h (isNaN_of_le hlow.1).1).resolve_left h0,
        (lt_or_le (isNaN_of_le hhigh.2).1 h).resolve_left h1⟩

theorem clampVolume_isNaN {x : Float} (h : x.isNaN = true) : (clamp x 0 100).isNaN = true := by
  -- NaN compares with nothing, so that neither end of the range takes it in.
  have hle (y : Float) : ¬ x ≤ y ∧ ¬ y ≤ x := by
    refine ⟨fun hy => ?_, fun hy => ?_⟩
    · rw [(isNaN_of_le hy).1] at h
      cases h
    · rw [(isNaN_of_le hy).2] at h
      cases h
  unfold clamp
  rw [if_neg fun hx => (hle 0).1 (le_of_lt hx), if_neg fun hx => (hle 100).2 (le_of_lt hx)]
  exact h

namespace Sprite

theorem InBounds.volume_isFinite {s : Sprite} (h : s.InBounds) : s.volume.isFinite = true :=
  isFinite_of_between h.volume.1 h.volume.2

theorem normalize_inBounds {s : Sprite} (h : s.volume.isNaN = false) : s.normalize.InBounds := by
  have hx := finiteOrZero_isFinite s.position.x
  have hy := finiteOrZero_isFinite s.position.y
  have hr := normalizeRotation_bounds s.rotation
  have hs : 0 ≤ atLeast s.size 0 := le_atLeast (by decide)
  have hv := clampVolume_bounds h
  have hp : 1 ≤ atLeast s.pen.size 1 := le_atLeast (by decide)
  refine ⟨hx, hy, hr, hs, hv, hp, ?_⟩
  simp only [numbers, normalize, List.forall_mem_cons]
  exact ⟨isNaN_of_isFinite hx, isNaN_of_isFinite hy, (isNaN_of_le hr.1).2, (isNaN_of_le hs).2,
    (isNaN_of_le hv.1).2, (isNaN_of_le hp).2, by simp⟩

theorem InRange.inBounds {s : Sprite} (h : s.InRange) (hv : s.volume.isNaN = false) :
    s.InBounds := by
  rw [← h]
  exact normalize_inBounds hv

theorem InRange.with_volume {s : Sprite} (h : s.InRange) : { s with volume := 0 }.InBounds := by
  have hv : clamp 0 0 100 = 0 := by decide
  have hs : { s with volume := 0 }.InRange := by
    have hn : { s with volume := 0 }.normalize = { s.normalize with volume := clamp 0 0 100 } := rfl
    rw [InRange, hn, hv, h]
  have hz : (0 : Float).isNaN = false := by decide
  exact hs.inBounds hz

theorem InBounds.hush {s : Sprite} (h : s.InBounds) : s.hush.InBounds :=
  ⟨h.x, h.y, h.rotation, h.size, h.volume, h.penSize, h.defined⟩

theorem create_inBounds (id name costume : String) : (create id name costume).InBounds := by
  have hv : (100 : Float).isNaN = false := by decide
  exact (create_inRange id name costume).inBounds hv

/-- A change that leaves the sprite its id, and that gives no volume of NaN to a sprite with a
finite one. -/
structure Mild (f : Sprite → Sprite) : Prop where
  id : ∀ s, (f s).id = s.id
  volume : ∀ s, s.volume.isFinite = true → (f s).volume.isNaN = false

theorem Mild.of_same {f : Sprite → Sprite} (hi : ∀ s, (f s).id = s.id)
    (hv : ∀ s, (f s).volume = s.volume) : Mild f := by
  refine ⟨hi, fun s h => ?_⟩
  rw [hv]
  exact isNaN_of_isFinite h

theorem hush_mild : Mild hush :=
  .of_same (fun _ => rfl) fun _ => rfl

theorem pointTowards_mild (p : Point) : Mild (·.pointTowards p) := by
  have hsame (s : Sprite) :
      (s.pointTowards p).id = s.id ∧ (s.pointTowards p).volume = s.volume := by
    simp only [pointTowards]
    split <;> exact ⟨rfl, rfl⟩
  exact .of_same (fun s => (hsame s).1) fun s => (hsame s).2

end Sprite

theorem BlockKind.spriteChange?_mild {kind : BlockKind} {arg : String → Value} {mouse : Point}
    {dice : Dice} {f : Sprite → Sprite} (h : kind.spriteChange? arg mouse dice = some f) :
    Sprite.Mild f := by
  cases kind with
  | changeVolume =>
    cases h
    exact ⟨fun _ => rfl, fun s hs => isNaN_add hs (Value.isNaN_toNumber _)⟩
  | setVolume =>
    cases h
    exact ⟨fun _ => rfl, fun _ _ => Value.isNaN_toNumber _⟩
  | goTo =>
    simp only [spriteChange?] at h
    split at h
    · cases h
      exact .of_same (fun _ => rfl) fun _ => rfl
    · split at h
      · cases h
        exact .of_same (fun _ => rfl) fun _ => rfl
      · cases h
  | pointTowards =>
    simp only [spriteChange?] at h
    split at h
    · cases h
      exact Sprite.pointTowards_mild mouse
    · cases h
  | switchCostume =>
    simp only [spriteChange?] at h
    split at h
    · cases h
    · cases h
      exact .of_same (fun _ => rfl) fun _ => rfl
  | moveSteps | turnRight | turnLeft | goToXY | changeX | setX | changeY | setY | bounce | say
  | think | nextCostume | changeSize | setSize | showSprite | hideSprite | penDown | penUp
  | setPenColor | setPenSize =>
    cases h
    exact .of_same (fun _ => rfl) fun _ => rfl
  | _ => cases h

end BlockScript

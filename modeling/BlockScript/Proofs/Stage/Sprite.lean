import BlockScript.Proofs.Number.Canonical
import BlockScript.Stage.Basic

/-! Sprites in range. Bringing a sprite into range a second time changes nothing, and a sprite
in range that is not changed draws nothing. -/

namespace BlockScript

open Number

theorem wrap_notNegative {x : Float} (hx : x.isFinite = true) :
    NotNegative (wrap x 360).toModel.unpack := by
  have hf : x.toModel.unpack.isFinite = true := hx
  rw [wrap, remainderBy, unpack_fullTurn]
  generalize hu : x.toModel.unpack = u at hf
  cases u with
  | infinity s => cases hf
  | notANumber => cases hf
  | zero s => rw [hu]; exact .zero s
  | finite s m e hm =>
    apply ofDyadic_notNegative
    apply Int.emod_nonneg
    have := Nat.two_pow_pos (-44 - min e (-44)).toNat
    rw [Nat.shiftLeft_eq]
    omega

theorem normalizeRotation_idem (d : Float) :
    normalizeRotation (normalizeRotation d) = normalizeRotation d := by
  have hzero : normalizeRotation 0 = 0 := by decide
  by_cases hd : d.isFinite = true
  · by_cases hr : wrap d 360 ≥ 360
    · have he : normalizeRotation d = 0 := by simp [normalizeRotation, hd, hr]
      rw [he, hzero]
    · have he : normalizeRotation d = wrap d 360 := by simp [normalizeRotation, hd, hr]
      have hn := wrap_notNegative hd
      have hfin : (wrap d 360).isFinite = true := by
        have hle : ¬ (360 : Float).toModel.unpack.le (wrap d 360).toModel.unpack = true :=
          fun h => hr ((le_iff 360 _).mpr h)
        change (wrap d 360).toModel.unpack.isFinite = true
        generalize (wrap d 360).toModel.unpack = u at hn hle
        cases hn with
        | zero s => rfl
        | infinity => exact absurd rfl hle
        | finite m e hm => rfl
      rw [he]
      simp [normalizeRotation, hfin, wrap_fullTurn hn hr, hr]
  · have he : normalizeRotation d = 0 := by simp [normalizeRotation, hd]
    rw [he, hzero]

theorem finiteOrZero_isFinite (x : Float) : (Sprite.finiteOrZero x).isFinite = true := by
  unfold Sprite.finiteOrZero
  by_cases hx : x.isFinite = true
  · simp [hx]
  · rw [if_neg hx]
    decide

theorem finiteOrZero_idem (x : Float) :
    Sprite.finiteOrZero (Sprite.finiteOrZero x) = Sprite.finiteOrZero x :=
  if_pos (finiteOrZero_isFinite x)

theorem atLeast_idem (x bound : Float) : atLeast (atLeast x bound) bound = atLeast x bound := by
  unfold atLeast
  by_cases hx : x > bound
  · simp [hx]
  · simp [hx]

theorem clampVolume_idem (x : Float) : clamp (clamp x 0 100) 0 100 = clamp x 0 100 := by
  have hlow : clamp 0 0 100 = 0 := by decide
  have hhigh : clamp 100 0 100 = 100 := by decide
  by_cases h0 : x < 0
  · simpa [clamp, h0] using hlow
  · by_cases h1 : x > 100
    · simpa [clamp, h0, h1] using hhigh
    · simp [clamp, h0, h1]

def Sprite.InRange (s : Sprite) : Prop :=
  s.normalize = s

theorem Sprite.normalize_inRange (s : Sprite) : s.normalize.InRange := by
  simp only [InRange, normalize, normalizeRotation_idem, finiteOrZero_idem, atLeast_idem,
    clampVolume_idem]

theorem Sprite.InRange.hush {s : Sprite} (h : s.InRange) : s.hush.InRange :=
  congrArg Sprite.hush h

theorem Sprite.create_inRange (id name costume : String) : (create id name costume).InRange := by
  have hr : normalizeRotation 90 = 90 := by decide
  have ho : finiteOrZero 0 = 0 := by decide
  have hs : atLeast 100 0 = 100 := by decide
  have hv : clamp 100 0 100 = 100 := by decide
  have hp : atLeast 3 1 = 3 := by decide
  simp [InRange, normalize, create, Point.origin, hr, ho, hs, hv, hp]

theorem Sprite.reset_inRange (s : Sprite) : s.reset.InRange :=
  create_inRange s.id s.name s.costume

theorem beq_self_of_isFinite {x : Float} (h : x.isFinite = true) : (x == x) = true := by
  change x.toModel.unpack.beq x.toModel.unpack = true
  have hf : x.toModel.unpack.isFinite = true := h
  generalize x.toModel.unpack = u at hf
  cases u with
  | infinity s => cases hf
  | notANumber => cases hf
  | zero s => rfl
  | finite s m e hm =>
    cases s <;> simp [Float.Model.UnpackedFloat.beq, Float.Model.UnpackedFloat.compare]

theorem Sprite.InRange.same_position {s : Sprite} (h : s.InRange) :
    s.position.same s.position = true := by
  have hx : s.position.x.isFinite = true := by
    rw [← h]
    exact finiteOrZero_isFinite _
  have hy : s.position.y.isFinite = true := by
    rw [← h]
    exact finiteOrZero_isFinite _
  simp [Point.same, beq_self_of_isFinite hx, beq_self_of_isFinite hy]

theorem Stage.drawn_self {s : Sprite} (h : s.InRange) : drawn s s = [] := by
  simp [drawn, h.same_position]

end BlockScript

import BlockScript.Number.Remainder
import Mathlib

/-! Packed numbers and their parts. Unpacking a number loses nothing, and rounding a value that
is a number already gives that number back. So a number in `[0, 360)` is its own remainder. -/

namespace BlockScript.Number

open Float.Model (UnpackedFloat Format totalExponent)
open Float.Model.UnpackedFloat

/-- What holds of the mantissa and the exponent of a finite number other than zero. -/
structure Canonical (m : Nat) (e : Int) : Prop where
  lt : m < 2 ^ 53
  least : -1074 ≤ e
  normal : 2 ^ 52 ≤ m ∨ e = -1074

theorem toNat_implicit (v : BitVec 52) : (1#1 ++ v).toNat = 2 ^ 52 + v.toNat := by
  rw [BitVec.toNat_append, ← Nat.shiftLeft_add_eq_or_of_lt v.isLt]
  rfl

theorem exponentBias_eq : Format.binary64.exponentBias = 1023 := rfl

theorem log2_eq_52 {m : Nat} (hl : 2 ^ 52 ≤ m) (hm : m < 2 ^ 53) : m.log2 = 52 := by
  have h0 : m ≠ 0 := by omega
  have h1 := (Nat.le_log2 h0).mpr hl
  have h2 := (Nat.log2_lt h0).mpr hm
  omega

theorem packComponents_fields (b : BitVec Format.binary64.numBits) :
    packComponents .binary64 (.ofBitVec (unpackSign b)) (unpackExponent b) (unpackMantissa b) =
      b := by
  have hs : (Sign.ofBitVec (unpackSign b)).toBitVec = unpackSign b := by
    generalize unpackSign b = v
    revert v
    decide
  rw [packComponents, hs]
  apply BitVec.eq_of_getLsbD_eq
  intro i hi
  simp only [unpackSign, unpackExponent, unpackMantissa, BitVec.getLsbD_append, BitVec.extractLsb]
  grind

theorem unpack_canonical {b : BitVec Format.binary64.numBits} {s : Sign} {m : Nat} {e : Int}
    {hm : 0 < m} (h : UnpackedFloat.unpack .binary64 b = .finite s m e hm) : Canonical m e := by
  have hlt : (unpackMantissa b).toNat < 2 ^ 52 := (unpackMantissa b).isLt
  simp only [UnpackedFloat.unpack, exponentBias_eq] at h
  split at h
  · split at h <;> cases h
  · split at h
    · rename_i hzero
      split at h
      · cases h
      · cases h
        refine ⟨by omega, ?_, .inr ?_⟩ <;> simp [hzero]
    · rename_i hne
      have hexp : (unpackExponent b).toNat ≠ 0 := fun h0 => hne (BitVec.eq_of_toNat_eq h0)
      cases h
      rw [toNat_implicit]
      refine ⟨by omega, ?_, .inl (by omega)⟩
      omega

theorem pack_unpack_word {b : BitVec Format.binary64.numBits} (valid : Format.binary64.Valid b) :
    UnpackedFloat.pack .binary64 (UnpackedFloat.unpack .binary64 b) = b := by
  have hw := packComponents_fields b
  have hlt : (unpackMantissa b).toNat < 2 ^ 52 := (unpackMantissa b).isLt
  have hlt' : (unpackExponent b).toNat < 2 ^ 11 := (unpackExponent b).isLt
  simp only [UnpackedFloat.unpack, exponentBias_eq]
  split
  · rename_i hones
    split
    · rename_i hm
      rw [hones, hm] at hw
      exact hw
    · rename_i hm
      exact (valid.eq_packedNaN hones hm).symm
  · rename_i hones
    have hmax : (unpackExponent b).toNat ≠ 2047 := fun h0 => hones (BitVec.eq_of_toNat_eq h0)
    split
    · rename_i hzero
      split
      · rename_i hm
        rw [hzero, hm] at hw
        exact hw
      · rename_i hm
        have hpos : (unpackMantissa b).toNat ≠ 0 := fun h0 => hm (BitVec.eq_of_toNat_eq h0)
        have hlog := (Nat.log2_lt hpos).mpr hlt
        have hbits : Format.binary64.mantissaBits = 53 := rfl
        simp only [UnpackedFloat.pack, exponentBias_eq, hzero, hbits]
        rw [if_neg (by simp), if_neg (by omega), BitVec.ofNat_toNat, BitVec.setWidth_eq, ← hzero]
        exact hw
    · rename_i hzero
      have hexp : (unpackExponent b).toNat ≠ 0 := fun h0 => hzero (BitVec.eq_of_toNat_eq h0)
      have hlog := log2_eq_52 (show 2 ^ 52 ≤ 2 ^ 52 + (unpackMantissa b).toNat by omega) (by omega)
      have hbits : Format.binary64.mantissaBits = 53 := rfl
      have hbiased : (((unpackExponent b).toNat : Int) - ((1023 : Nat) + (52 : Nat)) +
          (1023 : Nat) + (52 : Nat)).toNat = (unpackExponent b).toNat := by omega
      have hmant : BitVec.ofNat 52 (2 ^ 52 + (unpackMantissa b).toNat) = unpackMantissa b := by
        apply BitVec.eq_of_toNat_eq
        rw [BitVec.toNat_ofNat]
        omega
      simp only [UnpackedFloat.pack, exponentBias_eq, hbits, toNat_implicit, hlog, hbiased]
      rw [if_neg (by omega), if_pos trivial, hmant, BitVec.ofNat_toNat, BitVec.setWidth_eq]
      exact hw

theorem pack_unpack (x : Float.Model) : Float.Model.pack x.unpack = x := by
  obtain ⟨bits, valid⟩ := x
  simp only [Float.Model.pack, Float.Model.unpack]
  congr 1
  rw [pack_unpack_word valid]

theorem Canonical.target {m : Nat} {e : Int} (h : Canonical m e) (hm : 0 < m) :
    Format.binary64.targetExponent (totalExponent m e) = e := by
  have hmin : Format.binary64.minExponent = -1074 := rfl
  have hbits : Format.binary64.mantissaBits = 53 := rfl
  have hlog := (Nat.log2_lt (by omega)).mpr h.lt
  simp only [Format.targetExponent, totalExponent, hmin, hbits]
  rcases h.normal with hn | hn
  · have := log2_eq_52 hn h.lt
    have := h.least
    omega
  · omega

theorem shiftRight_exact (m k : Nat) :
    (⟨m * 2 ^ k, false, false⟩ : ExtendedMantissa) >>> k = ⟨m, false, false⟩ := by
  change Nat.repeat _ k _ = _
  induction k generalizing m with
  | zero => simp [Nat.repeat]
  | succ k ih =>
    have he : m * 2 ^ (k + 1) = 2 * m * 2 ^ k := by rw [Nat.pow_succ]; ac_rfl
    rw [Nat.repeat, he, ih]
    simp [ExtendedMantissa.shiftRightOne]

theorem totalExponent_shifted {m : Nat} (hm : 0 < m) (e : Int) (k : Nat) :
    totalExponent (m * 2 ^ k) (e - k) = totalExponent m e := by
  have hlog : (m * 2 ^ k).log2 = m.log2 + k := by
    induction k with
    | zero => simp
    | succ k ih =>
      have he : m * 2 ^ (k + 1) = 2 * (m * 2 ^ k) := by rw [Nat.pow_succ]; ac_rfl
      have hpos : 0 < m * 2 ^ k := Nat.mul_pos hm (Nat.two_pow_pos k)
      rw [he, Nat.log2_two_mul (by omega), ih, Nat.add_assoc]
  simp only [totalExponent, hlog]
  omega

theorem shiftToTargetExponent_exact {m : Nat} {e : Int} (h : Canonical m e) (hm : 0 < m) (k : Nat) :
    shiftToTargetExponent .binary64 (m * 2 ^ k) (e - k) .exact = (⟨m, false, false⟩, e) := by
  simp [shiftToTargetExponent, shiftToExponent, totalExponent_shifted hm, h.target hm,
    ExtendedMantissa.ofMantissaAndAccuracy, shiftRight_exact]

theorem round_shifted {m : Nat} {e : Int} (h : Canonical m e) (hm : 0 < m) (s : Sign) (k : Nat) :
    UnpackedFloat.round .binary64 s (m * 2 ^ k) (e - k) = .finite s m e hm := by
  have hdown : decreaseExponent (m * 2 ^ k) (e - k) e = (m * 2 ^ k, e - k) := by
    simp [decreaseExponent]
  have hfirst := shiftToTargetExponent_exact h hm k
  have hsecond : shiftToTargetExponent .binary64 m e .exact = (⟨m, false, false⟩, e) := by
    simpa using shiftToTargetExponent_exact h hm 0
  simp [UnpackedFloat.round, totalExponent_shifted hm, h.target hm, hdown, roundWithAccuracy,
    hfirst, hsecond, ExtendedMantissa.roundedMantissa, ExtendedMantissa.accuracy,
    Accuracy.roundToNearestEven, Nat.ne_of_gt hm]

theorem unpack_fullTurn :
    (360 : Float).toModel.unpack = .finite .positive (360 * 2 ^ 44) (-44) (by decide) := by
  rfl

/-- What a number that is not negative unpacks to. -/
inductive NotNegative : UnpackedFloat → Prop
  | zero (s : Sign) : NotNegative (.zero s)
  | infinity : NotNegative (.infinity .positive)
  | finite (m : Nat) (e : Int) (hm : 0 < m) : NotNegative (.finite .positive m e hm)

theorem unpackSign_components (s : Sign) (e : BitVec Format.binary64.exponentBits)
    (m : BitVec Format.binary64.mantissaBitsWithoutImplicit) :
    Sign.ofBitVec (unpackSign (packComponents .binary64 s e m)) = s := by
  have h : unpackSign (packComponents .binary64 s e m) = s.toBitVec := by
    simp only [unpackSign, packComponents, BitVec.extractLsb]
    ext i
    grind
  rw [h]
  cases s <;> rfl

theorem unpack_components {e : BitVec Format.binary64.exponentBits} (he : e ≠ -1#_)
    (m : BitVec Format.binary64.mantissaBitsWithoutImplicit) :
    NotNegative (UnpackedFloat.unpack .binary64 (packComponents .binary64 .positive e m)) := by
  simp only [UnpackedFloat.unpack, unpackMantissa_packComponents, unpackExponent_packComponents,
    unpackSign_components]
  rw [if_neg he]
  split
  · split
    · exact .zero _
    · exact .finite ..
  · exact .finite ..

theorem unpack_pack_positive (m : Nat) (e : Int) (hm : 0 < m) :
    NotNegative (Float.Model.pack (.finite .positive m e hm)).unpack := by
  change NotNegative (UnpackedFloat.unpack .binary64 (UnpackedFloat.pack .binary64 _))
  simp only [UnpackedFloat.pack]
  split
  · exact .infinity
  · rename_i hfits
    have hne : BitVec.ofNat 11 (e + Format.binary64.exponentBias + (52 : Nat)).toNat ≠ -1#11 := by
      intro h
      have h' := congrArg BitVec.toNat h
      simp at h'
      omega
    split
    · exact unpack_components hne _
    · exact unpack_components (show 0#11 ≠ -1#11 by decide) _

theorem ofDyadic_notNegative {a : Int} (ha : 0 ≤ a) (g : Int) (s : Sign) :
    NotNegative (ofDyadic a g s).toModel.unpack := by
  simp only [ofDyadic, UnpackedFloat.normalize]
  split
  · rename_i h
    rw [Int.compare_eq_lt] at h
    omega
  · cases s <;> exact .zero _
  · simp only [UnpackedFloat.round, roundWithAccuracy]
    split
    · exact .zero .positive
    · exact unpack_pack_positive _ _ _

theorem le_iff (x y : Float) : x ≤ y ↔ x.toModel.unpack.le y.toModel.unpack = true :=
  decide_eq_true_iff

theorem ofDyadic_canonical {x : Float} {m : Nat} {e : Int} {hm : 0 < m}
    (hu : x.toModel.unpack = .finite .positive m e hm) : ofDyadic m e .positive = x := by
  have hr := round_shifted (unpack_canonical hu) hm .positive 0
  have hn : UnpackedFloat.normalize .binary64 m e .positive = .finite .positive m e hm := by
    have hgt : compare (m : Int) 0 = .gt := Int.compare_eq_gt.mpr (by omega)
    simpa [UnpackedFloat.normalize, hgt] using hr
  rw [ofDyadic, hn, ← hu, pack_unpack]

/-- A number in `[0, 360)` is its own remainder by 360. -/
theorem wrap_fullTurn {x : Float} (h : NotNegative x.toModel.unpack) (hx : ¬ x ≥ 360) :
    wrap x 360 = x := by
  have hle : ¬ (360 : Float).toModel.unpack.le x.toModel.unpack = true :=
    fun h => hx ((le_iff 360 x).mpr h)
  rw [wrap, remainderBy, unpack_fullTurn]
  rw [unpack_fullTurn] at hle
  generalize hu : x.toModel.unpack = u at h hle
  cases h with
  | zero s => rfl
  | infinity => exact absurd rfl hle
  | finite m e hm =>
    have hlt := (unpack_canonical hu).lt
    -- The exponent is at most that of 360, so that `x` is not shifted.
    have hless : e < -44 ∨ e = -44 ∧ m < 360 * 2 ^ 44 := by
      simp only [UnpackedFloat.le, UnpackedFloat.compare, Option.any_some, Bool.not_eq_true,
        Ordering.isLE_eq_false, Ordering.then_eq_gt, Int.compare_eq_gt, Int.compare_eq_eq,
        Nat.compare_eq_gt] at hle
      omega
    have hg : min e (-44) = e := by omega
    have hmod : (m : Int) % ((360 * 2 ^ 44) <<< (-44 - e).toNat : Nat) = m := by
      rw [Nat.shiftLeft_eq]
      apply Int.emod_eq_of_lt (by omega)
      have hpos := Nat.two_pow_pos (-44 - e).toNat
      rcases hless with he | ⟨he, hm'⟩
      · have hk : 2 ^ 1 ≤ 2 ^ (-44 - e).toNat := Nat.pow_le_pow_right (by omega) (by omega)
        omega
      · omega
    change ofDyadic ((m <<< (e - min e (-44)).toNat : Nat) %
      ((360 * 2 ^ 44) <<< (-44 - min e (-44)).toNat : Nat)) (min e (-44)) .positive = x
    rw [hg, Int.sub_self, Int.toNat_zero, Nat.shiftLeft_zero, hmod]
    exact ofDyadic_canonical hu

end BlockScript.Number

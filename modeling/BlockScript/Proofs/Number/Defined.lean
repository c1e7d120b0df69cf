import BlockScript.Proofs.Number.Rank
import BlockScript.Value

/-! Numbers other than NaN. Any two of them compare. Rounding never gives NaN, so neither does a
numeral nor a sum with a finite number, and a number slot never holds NaN. -/

namespace BlockScript

namespace Number

open Float.Model (UnpackedFloat Format)
open Float.Model.UnpackedFloat

theorem isNaN_eq (x : Float) : x.isNaN = x.toModel.unpack.isNaN :=
  rfl

theorem isNaN_of_isFinite {x : Float} (h : x.isFinite = true) : x.isNaN = false := by
  have hf : x.toModel.unpack.isFinite = true := h
  rw [isNaN_eq]
  cases hu : x.toModel.unpack with
  | notANumber =>
    rw [hu] at hf
    cases hf
  | _ => rfl

theorem isNaN_of_le {x y : Float} (h : x ≤ y) : x.isNaN = false ∧ y.isNaN = false := by
  rw [le_iff, UnpackedFloat.le] at h
  rw [isNaN_eq, isNaN_eq]
  generalize x.toModel.unpack = u at h
  generalize y.toModel.unpack = v at h
  cases u with
  | notANumber => cases h
  | _ =>
    cases v with
    | notANumber => cases h
    | _ => exact ⟨rfl, rfl⟩

theorem exists_rank {x : Float} (h : x.isNaN = false) : ∃ p, rank? x.toModel.unpack = some p := by
  rw [isNaN_eq] at h
  generalize x.toModel.unpack = u at h
  cases u with
  | notANumber => cases h
  | infinity s => cases s <;> exact ⟨_, rfl⟩
  | zero | finite => exact ⟨_, rfl⟩

theorem lt_or_le {x y : Float} (hx : x.isNaN = false) (hy : y.isNaN = false) : x < y ∨ y ≤ x := by
  obtain ⟨p, hp⟩ := exists_rank hx
  obtain ⟨q, hq⟩ := exists_rank hy
  rw [le_iff_rank hq hp, lt_iff, UnpackedFloat.lt, compare_rank hp hq, beq_iff_eq,
    Option.some.injEq, compare_lt_iff_lt]
  exact lt_or_ge p q

theorem lt_of_le_of_lt {x y z : Float} (h : x ≤ y) (h' : y < z) : x < z := by
  obtain ⟨hx, hy⟩ := isNaN_of_le h
  obtain ⟨p, hp⟩ := exists_rank hx
  obtain ⟨q, hq⟩ := exists_rank hy
  obtain ⟨r, hr⟩ := exists_rank (isNaN_of_le (le_of_lt h')).2
  rw [le_iff_rank hp hq] at h
  rw [lt_iff_rank hq hr] at h'
  rw [lt_iff_rank hp hr]
  exact h.trans_lt h'

theorem not_lt_of_le {x y : Float} (h : x ≤ y) : ¬ y < x := by
  obtain ⟨hx, hy⟩ := isNaN_of_le h
  obtain ⟨p, hp⟩ := exists_rank hx
  obtain ⟨q, hq⟩ := exists_rank hy
  rw [le_iff_rank hp hq] at h
  rw [lt_iff_rank hq hp]
  exact not_lt.mpr h

theorem isFinite_of_between {x : Float} (low : 0 ≤ x) (high : x ≤ 100) : x.isFinite = true := by
  change x.toModel.unpack.isFinite = true
  rw [le_iff] at low high
  generalize x.toModel.unpack = u at low high
  cases u with
  | zero | finite => rfl
  | notANumber => cases low
  | infinity s =>
    cases s with
    | negative => cases low
    | positive => cases high

theorem isNaN_roundWithAccuracy (s : Sign) (m : Nat) (e : Int) (a : Accuracy) :
    (roundWithAccuracy .binary64 s m e a).isNaN = false := by
  simp only [roundWithAccuracy]
  split <;> rfl

theorem isNaN_normalize (m e : Int) (s : Sign) : (normalize .binary64 m e s).isNaN = false := by
  simp only [UnpackedFloat.normalize]
  split
  · exact isNaN_roundWithAccuracy ..
  · rfl
  · exact isNaN_roundWithAccuracy ..

theorem isNaN_components (s : Sign) {e : BitVec Format.binary64.exponentBits} (he : e ≠ -1#_)
    (m : BitVec Format.binary64.mantissaBitsWithoutImplicit) :
    (UnpackedFloat.unpack .binary64 (packComponents .binary64 s e m)).isNaN = false := by
  simp only [UnpackedFloat.unpack, unpackMantissa_packComponents, unpackExponent_packComponents]
  rw [if_neg he]
  split
  · split <;> rfl
  · rfl

theorem isNaN_pack {u : UnpackedFloat} (h : u.isNaN = false) :
    (Float.Model.pack u).unpack.isNaN = false := by
  cases u with
  | notANumber => cases h
  | infinity s => cases s <;> rfl
  | zero s => cases s <;> rfl
  | finite s m e hm =>
    change (UnpackedFloat.unpack .binary64 (UnpackedFloat.pack .binary64 _)).isNaN = false
    simp only [UnpackedFloat.pack]
    split
    · cases s <;> rfl
    · rename_i hfits
      -- The exponent of NaN has all bits set, and a number that is not too large stays below it.
      have hne :
          BitVec.ofNat 11 (e + Format.binary64.exponentBias + (52 : Nat)).toNat ≠ -1#11 := by
        intro he
        have he' := congrArg BitVec.toNat he
        simp at he'
        omega
      split
      · exact isNaN_components s hne _
      · exact isNaN_components s (show 0#11 ≠ -1#11 by decide) _

theorem isNaN_add {x y : Float} (hx : x.isFinite = true) (hy : y.isNaN = false) :
    (x + y).isNaN = false := by
  have hf : x.toModel.unpack.isFinite = true := hx
  rw [isNaN_eq] at hy ⊢
  rw [unpack_add]
  apply isNaN_pack
  generalize x.toModel.unpack = u at hf
  cases u with
  | notANumber => cases hf
  | infinity s => cases hf
  | zero s =>
    cases hv : y.toModel.unpack with
    | notANumber =>
      rw [hv] at hy
      cases hy
    | zero s' =>
      simp only [UnpackedFloat.add]
      split <;> rfl
    | _ => rfl
  | finite s m e hm =>
    cases hv : y.toModel.unpack with
    | notANumber =>
      rw [hv] at hy
      cases hy
    | finite s' m' e' hm' => exact isNaN_normalize ..
    | _ => rfl

theorem isNaN_neg {x : Float} (h : x.isNaN = false) : (-x).isNaN = false := by
  rw [isNaN_eq] at h ⊢
  change (Float.Model.pack x.toModel.unpack.neg).unpack.isNaN = false
  apply isNaN_pack
  cases hu : x.toModel.unpack with
  | notANumber =>
    rw [hu] at h
    cases h
  | _ => rfl

/-- Whether a number is neither zero nor infinite nor NaN. -/
def isProper : UnpackedFloat → Bool
  | .finite .. => true
  | _ => false

theorem isNaN_mul {u v : UnpackedFloat} (hu : u.isNaN = false) (hv : isProper v = true) :
    (u.mul .binary64 v).isNaN = false := by
  cases v with
  | finite s m e hm =>
    cases u with
    | notANumber => cases hu
    | finite s' m' e' hm' => exact isNaN_roundWithAccuracy ..
    | _ => rfl
  | _ => cases hv

theorem isNaN_div {u v : UnpackedFloat} (hu : u.isNaN = false) (hv : isProper v = true) :
    (u.div .binary64 v).isNaN = false := by
  cases v with
  | finite s m e hm =>
    cases u with
    | notANumber => cases hu
    | finite s' m' e' hm' => exact isNaN_roundWithAccuracy ..
    | _ => rfl
  | _ => cases hv

theorem isNaN_ofWord (n : UInt64) : n.toFloat.isNaN = false := by
  rw [isNaN_eq]
  apply isNaN_pack
  exact isNaN_normalize ..

theorem powersOfTen_isProper :
    ∀ x ∈ Float.exactlyRepresentablePowersOfTen.toList, isProper x.toModel.unpack = true := by
  decide

theorem isNaN_scaled (m : Nat) (e : Int) :
    (UnpackedFloat.ofScientific .binary64 m e).isNaN = false := by
  unfold UnpackedFloat.ofScientific
  split
  · rfl
  · split
    · rfl
    · split
      · rfl
      · split
        · exact isNaN_mul rfl rfl
        · exact isNaN_div rfl rfl

theorem isNaN_ofScientific (m : Nat) (negative : Bool) (e : Nat) :
    (Float.ofScientific m negative e).isNaN = false := by
  have hword := isNaN_ofWord m.toUInt64
  rw [isNaN_eq] at hword
  unfold Float.ofScientific
  split
  · rename_i h
    have hsize : e < Float.exactlyRepresentablePowersOfTen.size := by
      simp only [Float.exactlyRepresentablePowersOfTen, List.size_toArray, List.length_cons,
        List.length_nil]
      omega
    have hten := powersOfTen_isProper _ (Array.getElem_mem_toList hsize)
    cases negative with
    | true => exact isNaN_pack (isNaN_div hword hten)
    | false => exact isNaN_pack (isNaN_mul hword hten)
  · exact isNaN_pack (isNaN_scaled ..)

theorem isNaN_ofDecimal (m : Nat) (e : Int) : (ofDecimal m e).isNaN = false := by
  simp only [ofDecimal]
  split
  · decide
  · split
    · decide
    · split
      · decide
      · exact isNaN_ofScientific ..

theorem isNaN_readDecimal {cs : List Char} {x : Float} (h : readDecimal? cs = some x) :
    x.isNaN = false := by
  simp only [readDecimal?] at h
  split at h
  · split at h
    · cases h
    · obtain ⟨scale, -, rfl⟩ := Option.map_eq_some_iff.mp h
      exact isNaN_ofDecimal ..
  · split at h
    · cases h
    · obtain ⟨scale, -, rfl⟩ := Option.map_eq_some_iff.mp h
      exact isNaN_ofDecimal ..

theorem isNaN_readUnsigned {cs : List Char} {x : Float} (h : readUnsigned? cs = some x) :
    x.isNaN = false := by
  unfold readUnsigned? at h
  split at h
  · cases h
    decide
  · exact isNaN_readDecimal h

theorem isNaN_readHexWord {cs : List Char} {x : Float} (h : readHexWord? cs = some x) :
    x.isNaN = false := by
  simp only [readHexWord?] at h
  split at h
  · split at h
    · cases h
      exact isNaN_ofWord _
    · cases h
  · cases h

theorem isNaN_readNumeral {cs : List Char} {x : Float} (h : readNumeral? cs = some x) :
    x.isNaN = false := by
  unfold readNumeral? at h
  split at h
  · obtain ⟨y, hy, rfl⟩ := Option.map_eq_some_iff.mp h
    exact isNaN_neg (isNaN_readUnsigned hy)
  · exact isNaN_readUnsigned h
  · exact isNaN_readHexWord h
  · exact isNaN_readHexWord h
  · exact isNaN_readUnsigned h

end Number

theorem Value.isNaN_toNumber (v : Value) : v.toNumber.isNaN = false := by
  have hsome {x : Float} (h : v.number? = some x) : x.isNaN = false := by
    cases v with
    | number y =>
      simp only [number?] at h
      split at h
      · cases h
      · rename_i hy
        cases h
        simpa using hy
    | text s =>
      simp only [number?, readNumber?] at h
      split at h
      · cases h
        decide
      · exact Number.isNaN_readNumeral h
  unfold toNumber
  cases hv : v.number? with
  | none =>
    rw [Option.getD_none]
    decide
  | some x => exact hsome hv

end BlockScript

import BlockScript.Proofs.Number.Rank

/-! Differences and distances. A difference of numbers is zero only if they are equal, and a distance
is zero only if both of its legs are: neither is ever too small to be a number. -/

namespace BlockScript.Number

open Float.Model (UnpackedFloat Format totalExponent)
open Float.Model.UnpackedFloat

theorem Rounds.eq {v : ℚ} {u : UnpackedFloat} (h : Rounds v u) (hv : HasBits v) :
    value? u = some v := by
  obtain ⟨hlow, hhigh⟩ := h v hv
  rcases hlow le_rfl with rfl | ⟨w, hw, hle⟩
  · rcases hhigh le_rfl with hu | ⟨w, hw, -⟩
    · cases hu
    · cases hw
  · rcases hhigh le_rfl with rfl | ⟨w', hw', hge⟩
    · cases hw
    · cases hw.symm.trans hw'
      rw [le_antisymm hle hge]
      exact hw

theorem hasBits_zero : HasBits 0 :=
  ⟨0, 0, by norm_num, by omega, by omega, by simp⟩

theorem exists_value_of_sub {x y : Float} {d : ℚ} (h : value? (x - y).toModel.unpack = some d) :
    ∃ v w, value? x.toModel.unpack = some v ∧ value? y.toModel.unpack = some w := by
  have hnan (h : value? (Float.Model.pack .notANumber).unpack = some d) : False := by
    cases (show none = some d from h)
  have hinf {s : Sign} (h : value? (Float.Model.pack (.infinity s)).unpack = some d) : False := by
    rw [unpack_pack_infinity] at h
    cases h
  rw [unpack_sub] at h
  generalize x.toModel.unpack = u at h
  generalize y.toModel.unpack = u' at h
  cases u with
  | notANumber => exact (hnan h).elim
  | infinity s =>
    cases u' with
    | notANumber => exact (hnan h).elim
    | infinity s' => cases s <;> cases s' <;> exact (hnan h).elim
    | zero | finite => exact (hinf h).elim
  | zero | finite =>
    cases u' with
    | notANumber => exact (hnan h).elim
    | infinity s' => exact (hinf h).elim
    | zero | finite => exact ⟨_, _, rfl, rfl⟩

/-- Every finite number is a multiple of the least one. -/
theorem exists_multiple {x : Float} {v : ℚ} (hx : value? x.toModel.unpack = some v) :
    ∃ a : Int, v = a * 2 ^ (-1074 : Int) := by
  have hfin := @unpack_finite x
  generalize x.toModel.unpack = u at hx hfin
  cases u with
  | notANumber | infinity => cases hx
  | zero s =>
    cases hx
    exact ⟨0, by simp⟩
  | finite s m e hm =>
    cases hx
    obtain ⟨k, hk⟩ := Int.le.dest (hfin rfl).1.least
    refine ⟨s.apply m * 2 ^ k, ?_⟩
    rw [← hk, zpow_add_nat, Int.cast_mul, Int.cast_pow, Int.cast_ofNat, mul_assoc]

theorem sub_value_eq_zero_iff {x y : Float} {v w d : ℚ} (hx : value? x.toModel.unpack = some v)
    (hy : value? y.toModel.unpack = some w) (hd : value? (x - y).toModel.unpack = some d) :
    d = 0 ↔ v = w := by
  have hround := sub_rounds hx hy
  constructor
  · rintro rfl
    obtain ⟨a, rfl⟩ := exists_multiple hx
    obtain ⟨b, rfl⟩ := exists_multiple hy
    rw [← sub_mul] at hround
    have hpos : (0 : ℚ) < 2 ^ (-1074 : Int) := zpow_pos two_pos _
    have hbits : HasBits (2 ^ (-1074 : Int)) :=
      ⟨1, -1074, by norm_num, by omega, by omega, by rw [abs_of_pos hpos, Nat.cast_one, one_mul]⟩
    have hzero : AtLeast 0 (x - y).toModel.unpack := .inr ⟨0, hd, le_rfl⟩
    have hzero' : AtMost 0 (x - y).toModel.unpack := .inr ⟨0, hd, le_rfl⟩
    -- A difference of one multiple or more is not rounded to zero.
    rcases lt_trichotomy a b with h | rfl | h
    · have hle : (a : ℚ) - b ≤ -1 := by
        have : (a : ℚ) + 1 ≤ b := by exact_mod_cast h
        linarith
      have hfar : AtMost (-2 ^ (-1074 : Int)) (x - y).toModel.unpack :=
        (hround _ hbits.neg).2 (by nlinarith)
      exact absurd hfar (hzero.not_atMost (by linarith))
    · rfl
    · have hle : 1 ≤ (a : ℚ) - b := by
        have : (b : ℚ) + 1 ≤ a := by exact_mod_cast h
        linarith
      have hfar : AtLeast (2 ^ (-1074 : Int)) (x - y).toModel.unpack :=
        (hround _ hbits).1 (by nlinarith)
      exact absurd hzero' (hfar.not_atMost hpos)
  · rintro rfl
    rw [sub_self] at hround
    exact Option.some.inj (hd.symm.trans (hround.eq hasBits_zero))

theorem beq_iff_value {x y : Float} {v w : ℚ} (hx : value? x.toModel.unpack = some v)
    (hy : value? y.toModel.unpack = some w) : (x == y) = true ↔ v = w := by
  change x.toModel.unpack.beq y.toModel.unpack = true ↔ v = w
  rw [UnpackedFloat.beq, compare_value hx hy, beq_iff_eq, Option.some.injEq, compare_eq_iff_eq]

theorem value_of_beq {x y : Float} {w : ℚ} (hy : value? y.toModel.unpack = some w)
    (h : (x == y) = true) : value? x.toModel.unpack = some w := by
  change x.toModel.unpack.beq y.toModel.unpack = true at h
  rw [UnpackedFloat.beq, beq_iff_eq] at h
  cases hx : value? x.toModel.unpack with
  | some v =>
    rw [compare_value hx hy, Option.some.injEq, compare_eq_iff_eq] at h
    rw [h]
  | none =>
    generalize x.toModel.unpack = u at hx h
    cases u with
    | zero | finite => cases hx
    | notANumber => cases h
    | infinity s =>
      obtain ⟨hlow, hhigh, -⟩ := compare_infinity hy
      cases s with
      | negative => cases hlow.symm.trans h
      | positive => cases hhigh.symm.trans h

theorem rank_coe_of_value {u : UnpackedFloat} {v : ℚ} (h : value? u = some v) :
    rank? u = some (WithBotTop.coe v) := by
  cases u with
  | notANumber | infinity => cases h
  | zero | finite =>
    cases h
    rfl

/-- What a number greater than zero unpacks to. -/
def Positive (u : UnpackedFloat) : Prop :=
  ∃ p, rank? u = some p ∧ WithBotTop.coe 0 < p

theorem lt_iff_value {x y : Float} {v w : ℚ} (hx : value? x.toModel.unpack = some v)
    (hy : value? y.toModel.unpack = some w) : x < y ↔ v < w := by
  rw [lt_iff_rank (rank_coe_of_value hx) (rank_coe_of_value hy)]
  exact WithBotTop.coe_strictMono.lt_iff_lt

/-- Only a finite difference has a distance below a bound. -/
theorem exists_value_of_hypot_lt {x y z : Float} (h : hypot x y < z) :
    ∃ v w, value? x.toModel.unpack = some v ∧ value? y.toModel.unpack = some w := by
  have hnan : ¬ nan < z := by
    rw [lt_iff, UnpackedFloat.lt, beq_iff_eq]
    intro h
    cases h
  have hinf : ¬ infinity < z := by
    rw [lt_iff, UnpackedFloat.lt, beq_iff_eq]
    intro h
    change (UnpackedFloat.infinity .positive).compare z.toModel.unpack = _ at h
    generalize z.toModel.unpack = u at h
    cases u with
    | infinity s => cases s <;> cases h
    | notANumber | zero | finite => cases h
  unfold hypot at h
  generalize x.toModel.unpack = u at h
  generalize y.toModel.unpack = u' at h
  cases u with
  | notANumber =>
    cases u' with
    | infinity => exact absurd h hinf
    | notANumber | zero | finite => exact absurd h hnan
  | infinity => exact absurd h hinf
  | zero | finite =>
    cases u' with
    | notANumber => exact absurd h hnan
    | infinity => exact absurd h hinf
    | zero | finite => exact ⟨_, _, rfl, rfl⟩

theorem positive_infinity : Positive (.infinity .positive) :=
  ⟨⊤, rfl, lt_top_iff_ne_top.mpr (WithBotTop.coe_ne_top 0)⟩

theorem positive_of_value {u : UnpackedFloat} {v : ℚ} (h : value? u = some v) (hv : 0 < v) :
    Positive u :=
  ⟨WithBotTop.coe v, rank_coe_of_value h, WithBotTop.coe_strictMono hv⟩

theorem positive_pack {m : Nat} {e : Int} (hm : 0 < m) (hlt : m < 2 ^ 53) (he : -1074 ≤ e) :
    Positive (Float.Model.pack (.finite .positive m e hm)).unpack := by
  have hcanonical {e : Int} (hc : Canonical m e) (hle : e ≤ 971) :
      Positive (Float.Model.pack (.finite .positive m e hm)).unpack := by
    apply positive_of_value (v := m * 2 ^ e)
    · rw [unpack_pack_canonical hc hle, value?, Sign.apply, Int.cast_natCast]
    · positivity
  by_cases hle : e ≤ 971
  · by_cases hn : 2 ^ 52 ≤ m
    · exact hcanonical ⟨hlt, he, .inl hn⟩ hle
    · -- The exponent of a mantissa this small is not kept.
      have hlog := (Nat.log2_lt (by omega)).mpr (show m < 2 ^ 52 by omega)
      have hsame : Float.Model.pack (.finite .positive m e hm) =
          Float.Model.pack (.finite .positive m (-1074) hm) := by
        have hbits : Format.binary64.mantissaBits = 53 := rfl
        simp only [Float.Model.pack, UnpackedFloat.pack, exponentBias_eq, hbits]
        congr 1
        rw [if_neg (by omega), if_neg (by omega), if_neg (by omega), if_neg (by omega)]
      rw [hsame]
      exact hcanonical ⟨hlt, le_rfl, .inr rfl⟩ (by omega)
  · rw [unpack_pack_overflow (by omega)]
    exact positive_infinity

/-- Shifted to its target, a mantissa keeps its first 53 bits. -/
theorem shiftToTargetExponent_mantissa {m : Nat} {e : Int} (hm : 0 < m) (he : -1074 ≤ e)
    (a : Accuracy) :
    0 < (shiftToTargetExponent .binary64 m e a).1.mantissa ∧
      (shiftToTargetExponent .binary64 m e a).1.mantissa < 2 ^ 53 ∧
      -1074 ≤ (shiftToTargetExponent .binary64 m e a).2 := by
  have hexp : (shiftToTargetExponent .binary64 m e a).2 = e + ((target m e - e).toNat : Int) := rfl
  have hshift : (shiftToTargetExponent .binary64 m e a).1 =
      ExtendedMantissa.ofMantissaAndAccuracy m a >>> (target m e - e).toNat := rfl
  rw [hexp, hshift, shiftRight_mantissa, mantissa_ofMantissaAndAccuracy]
  generalize hk : (target m e - e).toNat = k
  have hself := Nat.log2_self_le (n := m) (by omega)
  have hlt := Nat.lt_log2_self (n := m)
  have hlow : 2 ^ k ≤ 2 ^ m.log2 := by
    apply Nat.pow_le_pow_right (by omega)
    unfold target at hk
    omega
  have hhigh : 2 ^ (m.log2 + 1) ≤ 2 ^ 53 * 2 ^ k := by
    rw [← Nat.pow_add]
    apply Nat.pow_le_pow_right (by omega)
    unfold target at hk
    omega
  refine ⟨Nat.div_pos (hlow.trans hself) (Nat.two_pow_pos k), ?_, by omega⟩
  exact (Nat.div_lt_iff_lt_mul (Nat.two_pow_pos k)).mpr (hlt.trans_le hhigh)

theorem positive_roundWithAccuracy {m : Nat} {e : Int} (hm : 0 < m) (he : -1074 ≤ e)
    (a : Accuracy) :
    Positive (Float.Model.pack (roundWithAccuracy .binary64 .positive m e a)).unpack := by
  obtain ⟨hpos, -, hexp⟩ := shiftToTargetExponent_mantissa hm he a
  have hrounded := hpos.trans_le (roundedMantissa_bounds _).1
  obtain ⟨hpos, hlt, hexp⟩ := shiftToTargetExponent_mantissa hrounded hexp .exact
  simp only [roundWithAccuracy]
  rw [dif_neg (by omega)]
  exact positive_pack _ hlt hexp

theorem positive_rootOfDyadic {m : Nat} {g : Int} (hm : 0 < m) (hg : -1074 ≤ g) :
    Positive (rootOfDyadic m (2 * g)).toModel.unpack := by
  rw [rootOfDyadic, dif_pos hm]
  change Positive (Float.Model.pack (UnpackedFloat.sqrt .binary64 _)).unpack
  simp only [UnpackedFloat.sqrt, sqrtCore]
  apply positive_roundWithAccuracy
  · apply Nat.sqrt_pos.mpr
    rw [Nat.shiftLeft_eq]
    positivity
  · have hmin : Format.binary64.minExponent = -1074 := rfl
    simp only [Format.targetExponent, hmin]
    have hhalf : (2 * g).ediv 2 = g := Int.mul_ediv_cancel_left g (by omega)
    omega

/-- A distance is zero if both legs are, and positive otherwise. -/
theorem hypot_rank_zero {x y : Float} {v w : ℚ} (hx : value? x.toModel.unpack = some v)
    (hy : value? y.toModel.unpack = some w) :
    v = 0 ∧ w = 0 ∧ rank? (hypot x y).toModel.unpack = some (WithBotTop.coe 0) ∨
      (v ≠ 0 ∨ w ≠ 0) ∧ Positive (hypot x y).toModel.unpack := by
  have hfin := @unpack_finite x
  have hfin' := @unpack_finite y
  have habs := abs_value hx
  have habs' := abs_value hy
  unfold hypot
  generalize x.toModel.unpack = u at hx hfin
  generalize y.toModel.unpack = u' at hy hfin'
  have hne {s : Sign} {m : Nat} {e : Int} (hm : 0 < m) : ((s.apply m : Int) : ℚ) * 2 ^ e ≠ 0 := by
    have hcast : s.apply m ≠ 0 := by cases s <;> simp only [Sign.apply] <;> omega
    exact mul_ne_zero (by exact_mod_cast hcast) (zpow_ne_zero e two_ne_zero)
  cases u with
  | notANumber | infinity => cases hx
  | zero s =>
    cases hx
    cases u' with
    | notANumber | infinity => cases hy
    | zero s' =>
      cases hy
      rw [abs_zero] at habs'
      exact .inl ⟨rfl, rfl, rank_coe_of_value habs'⟩
    | finite s' n f hn =>
      cases hy
      exact .inr ⟨.inr (hne hn), positive_of_value habs' (abs_pos.mpr (hne hn))⟩
  | finite s m e hm =>
    cases hx
    cases u' with
    | notANumber | infinity => cases hy
    | zero s' =>
      cases hy
      exact .inr ⟨.inl (hne hm), positive_of_value habs (abs_pos.mpr (hne hm))⟩
    | finite s' n f hn =>
      cases hy
      refine .inr ⟨.inl (hne hm), positive_rootOfDyadic ?_ ?_⟩
      · rw [Nat.shiftLeft_eq, Nat.shiftLeft_eq]
        positivity
      · have := (hfin rfl).1.least
        have := (hfin' rfl).1.least
        omega

end BlockScript.Number

import BlockScript.Number.Decimal
import BlockScript.Proofs.Number.Nearest

/-! Whole numbers. Rounding to an integer and counting units of a power of ten are at most a half
off, and an integer is its own integer part. -/

namespace BlockScript.Number

open Float.Model (UnpackedFloat Format)
open Float.Model.UnpackedFloat

theorem nearestQuotient_eq (n : Nat) {d : Nat} (hd : 0 < d) :
    nearestQuotient n d = (ExtendedMantissa.ofMantissaAndAccuracy (n / d)
      (accuracyOfFraction (n % d) d)).roundedMantissa := by
  rw [nearestQuotient, accuracyOfFraction]
  by_cases hr : n % d = 0
  · rw [if_pos hr, hr, Nat.compare_eq_lt.mpr (by omega)]
    rfl
  · rw [if_neg hr]
    cases compare (2 * (n % d)) d <;> rfl

theorem nearestQuotient_near (n : Nat) {d : Nat} (hd : 0 < d) :
    |(nearestQuotient n d : ℚ) - n / d| ≤ 1 / 2 := by
  rw [nearestQuotient_eq n hd]
  exact (holds_fraction n hd).rounded

theorem decimalUnits_near (places m : Nat) (e : Int) :
    |(decimalUnits places m e : ℚ) - m * 2 ^ e * 10 ^ places| ≤ 1 / 2 := by
  rw [decimalUnits]
  by_cases he : 0 ≤ e
  · obtain ⟨k, rfl⟩ := Int.eq_ofNat_of_zero_le he
    rw [if_pos he, Int.toNat_natCast, Nat.shiftLeft_eq, Nat.pow_eq, zpow_natCast]
    push_cast
    norm_num
  · obtain ⟨k, rfl⟩ := Int.exists_eq_neg_ofNat (le_of_not_ge he)
    have hquotient := nearestQuotient_near (m * 10 ^ places) (Nat.two_pow_pos k)
    have hvalue : (m : ℚ) * 2 ^ (-(k : Int)) * 10 ^ places =
        ((m * 10 ^ places : Nat) : ℚ) / (2 ^ k : Nat) := by
      rw [zpow_neg, zpow_natCast]
      push_cast
      ring
    rw [if_neg he, neg_neg, Int.toNat_natCast, Nat.shiftLeft_eq, Nat.one_mul, Nat.pow_eq, hvalue]
    exact hquotient

theorem decimalUnits_eq {places m u : Nat} {e : Int}
    (h : |(u : ℚ) - m * 2 ^ e * 10 ^ places| < 1 / 2) : decimalUnits places m e = u := by
  have hnear := decimalUnits_near places m e
  have hclose : |((decimalUnits places m e : ℤ) - u : ℚ)| < 1 := by
    rw [abs_lt] at h ⊢
    rw [abs_le] at hnear
    rw [Int.cast_natCast]
    constructor <;> linarith
  have hzero : (decimalUnits places m e : ℤ) - u = 0 :=
    Int.abs_lt_one_iff.mp (by exact_mod_cast hclose)
  omega

theorem ofDyadic_whole {n : ℤ} (hn : |(n : ℚ)| < 2 ^ 53) (s : Sign) :
    value? (ofDyadic n 0 s).toModel.unpack = some (n : ℚ) := by
  by_cases hzero : n = 0
  · subst hzero
    cases s <;> simp <;> rfl
  · have hsame : ofDyadic n 0 s = ofDyadic n 0 .positive := by
      rw [ofDyadic, ofDyadic, UnpackedFloat.normalize, UnpackedFloat.normalize]
      split
      · rfl
      · rename_i h
        exact absurd (Int.compare_eq_eq.mp h) hzero
      · rfl
    have hround := normalize_rounds n 0
    rw [zpow_zero, mul_one] at hround
    rw [hsame]
    exact hround.eq (hasBits_int hn)

theorem apply_apply (s : Sign) (n : ℤ) : s.apply (s.apply n) = n := by
  cases s <;> simp [Sign.apply]

theorem roundToInt_eq (s : Sign) (m : Nat) (e : Int) :
    roundToInt s m e = s.apply ((m <<< e.toNat / 2 ^ (-e).toNat : Nat) : ℤ) := by
  have hleft : (e - 0).toNat = e.toNat := by omega
  have hright : (0 - (e - (e.toNat : Int))).toNat = (-e).toNat := by omega
  simp only [roundToInt, decreaseExponent, shiftToExponent, hleft, hright, shiftRight_mantissa]
  rfl

theorem truncate_of_value {x : Float} {n : ℤ} (hx : value? x.toModel.unpack = some (n : ℚ)) :
    truncate x = n := by
  rw [truncate]
  generalize x.toModel.unpack = u at hx
  cases u with
  | notANumber | infinity => cases hx
  | zero s =>
    rw [value?, Option.some.injEq, eq_comm, Int.cast_eq_zero] at hx
    rw [hx]
    rfl
  | finite s m e hm =>
    rw [value_finite, Option.some.injEq] at hx
    have hvalue : (m : ℚ) * 2 ^ e = (s.apply n : ℤ) := by
      rw [cast_apply, ← hx, factor_mul_factor]
    rw [UnpackedFloat.toInt, roundToInt_eq]
    suffices h : ((m <<< e.toNat / 2 ^ (-e).toNat : Nat) : ℤ) = s.apply n by
      rw [h, apply_apply]
    by_cases he : 0 ≤ e
    · obtain ⟨k, rfl⟩ := Int.eq_ofNat_of_zero_le he
      have hneg : (-(k : Int)).toNat = 0 := by omega
      rw [hneg, pow_zero, Nat.div_one, Int.toNat_natCast, Nat.shiftLeft_eq]
      rw [zpow_natCast] at hvalue
      exact_mod_cast hvalue
    · obtain ⟨k, rfl⟩ := Int.exists_eq_neg_ofNat (le_of_not_ge he)
      have hneg : (-(k : Int)).toNat = 0 := by omega
      rw [hneg, neg_neg, Int.toNat_natCast, Nat.shiftLeft_eq, pow_zero, Nat.mul_one]
      rw [zpow_neg, zpow_natCast, mul_inv_eq_iff_eq_mul₀ (by positivity)] at hvalue
      have hm : (m : ℤ) = s.apply n * 2 ^ k := by exact_mod_cast hvalue
      rw [Int.natCast_div, hm, Nat.cast_pow, Nat.cast_ofNat]
      exact Int.mul_ediv_cancel _ (by positivity)

theorem quotient_half_near (m : Nat) {d : Nat} (hd : 0 < d) :
    |(m : ℚ) / d - ((2 * m + d) / (2 * d) : Nat)| ≤ 1 / 2 := by
  have hpos : (0 : ℚ) < d := by exact_mod_cast hd
  have hlow := Nat.div_mul_le_self (2 * m + d) (2 * d)
  have hhigh := Nat.lt_div_mul_add (a := 2 * m + d) (show 0 < 2 * d by omega)
  generalize (2 * m + d) / (2 * d) = r at hlow hhigh
  have hlow : (r : ℚ) * (2 * d) ≤ 2 * m + d := by exact_mod_cast hlow
  have hhigh : (2 : ℚ) * m + d < r * (2 * d) + 2 * d := by exact_mod_cast hhigh
  have hquotient : (m : ℚ) = m / d * d := (div_mul_cancel₀ _ hpos.ne').symm
  generalize (m : ℚ) / d = q at hquotient ⊢
  rw [hquotient] at hlow hhigh
  have hd : 0 < 2 * (d : ℚ) := by linarith
  have hr : r ≤ q + 1 / 2 := le_of_mul_le_mul_right (by linarith) hd
  have hr' : q ≤ r + 1 / 2 := le_of_mul_le_mul_right (by linarith) hd
  rw [abs_le]
  constructor <;> linarith

/-- A half is rounded away from zero. -/
theorem round_quotient (s : Sign) {m d : Nat} (hm : 0 < m) :
    (s.apply m : ℤ).sign * ((2 * (s.apply m : ℤ).natAbs + d) / (2 * d)) =
      s.apply ((2 * m + d) / (2 * d) : Nat) := by
  cases s with
  | positive =>
    rw [Sign.apply, Int.sign_natCast_of_ne_zero hm.ne', one_mul, Int.natAbs_natCast]
    push_cast
    rfl
  | negative =>
    rw [Sign.apply, Int.sign_neg, Int.sign_natCast_of_ne_zero hm.ne', Int.natAbs_neg,
      Int.natAbs_natCast, neg_one_mul]
    push_cast
    rfl

theorem round_value {x : Float} {v : ℚ} (hx : value? x.toModel.unpack = some v) :
    ∃ n : ℤ, value? (round x).toModel.unpack = some (n : ℚ) ∧ |v - n| ≤ 1 / 2 := by
  have hfin := @unpack_finite x
  rw [round, roundBy]
  have hsame := hx
  generalize hu : x.toModel.unpack = u at hfin hx ⊢
  cases u with
  | notANumber | infinity => cases hx
  | zero s =>
    cases hx
    exact ⟨0, by simpa using hsame, by norm_num⟩
  | finite s m e hm =>
    rw [value_finite, Option.some.injEq] at hx
    by_cases he : 0 ≤ e
    · obtain ⟨k, rfl⟩ := Int.eq_ofNat_of_zero_le he
      have hwhole : v = (s.apply (m * 2 ^ k : ℤ) : ℤ) := by
        rw [cast_apply, ← hx, zpow_natCast]
        push_cast
        rfl
      refine ⟨s.apply (m * 2 ^ k : ℤ), ?_, by rw [hwhole]; norm_num⟩
      simp only [if_pos he]
      rw [← hwhole]
      exact hsame
    · obtain ⟨k, rfl⟩ := Int.exists_eq_neg_ofNat (le_of_not_ge he)
      have hd := Nat.two_pow_pos k
      have hnear := quotient_half_near m hd
      simp only [if_neg he]
      rw [neg_neg, Int.toNat_natCast, Nat.shiftLeft_eq, Nat.one_mul, round_quotient s hm]
      have hle : (2 * m + 2 ^ k) / (2 * 2 ^ k) ≤ m := by
        have hmul : m ≤ m * 2 ^ k := Nat.le_mul_of_pos_right m hd
        apply Nat.le_of_lt_succ
        rw [Nat.div_lt_iff_lt_mul (by omega)]
        linarith
      refine ⟨_, ofDyadic_whole ?_ s, ?_⟩
      · rw [cast_apply, abs_factor_mul, Int.cast_natCast, Nat.abs_cast]
        exact_mod_cast hle.trans_lt (hfin rfl).1.lt
      · rw [cast_apply, ← hx, Int.cast_natCast, ← mul_sub, abs_factor_mul, zpow_neg, zpow_natCast,
          ← div_eq_mul_inv]
        exact_mod_cast hnear

end BlockScript.Number

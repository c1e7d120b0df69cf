import BlockScript.Proofs.Number.Digits
import BlockScript.Proofs.Number.Literal
import BlockScript.Proofs.Number.Whole

/-! The text of a number, read back. It is a number that is shown by the same text, unless the
number is negative and too small for six decimals but not small enough to be shown as an integer:
such a number is shown as a zero with a sign, and the zero that is read back is shown without
one. -/

namespace BlockScript.Number

open Float.Model (UnpackedFloat)
open Float.Model.UnpackedFloat

theorem neg_value {x : Float} {v : ℚ} (hx : value? x.toModel.unpack = some v) :
    value? (-x).toModel.unpack = some (-v) := by
  have hfin := @unpack_finite x
  change value? (Float.Model.pack x.toModel.unpack.neg).unpack = _
  generalize x.toModel.unpack = u at hx hfin
  cases u with
  | notANumber | infinity => cases hx
  | zero s =>
    cases hx
    cases s <;> rfl
  | finite s m e hm =>
    obtain ⟨hc, he⟩ := hfin rfl
    cases hx
    rw [UnpackedFloat.neg, unpack_pack_canonical hc he, value?, neg_apply, Int.cast_neg, neg_mul]

theorem signed_value (s : Sign) {x : Float} {v : ℚ} (hx : value? x.toModel.unpack = some v) :
    value? (signed s x).toModel.unpack = some (factor s * v) := by
  cases s with
  | positive => rwa [factor, one_mul]
  | negative =>
    rw [factor, neg_one_mul]
    exact neg_value hx

theorem HasBits.factor_mul {q : ℚ} (h : HasBits q) (s : Sign) : HasBits (factor s * q) := by
  rwa [HasBits, abs_factor_mul]

theorem signed_near (s : Sign) {x : Float} {v : ℚ} (h : Near v x.toModel.unpack) :
    Near (factor s * v) (signed s x).toModel.unpack := by
  obtain ⟨w, hw, hnear⟩ := h
  refine ⟨factor s * w, signed_value s hw, fun q hq => ?_⟩
  have hq := hnear _ (hq.factor_mul s)
  rwa [← abs_factor_mul s (w - v), mul_sub, ← abs_factor_mul s (factor s * q - v), mul_sub,
    factor_mul_factor] at hq

theorem readNumber?_shown_near (s : Sign) {u : Nat} {q : ℚ} (hq : HasBits q)
    (hle : (u : ℚ) / 10 ^ 6 ≤ q) : ∃ w, Value.readNumber? (.ofList (shown s u)) = some w ∧
      Near (factor s * (u / 10 ^ 6)) w.toModel.unpack := by
  refine ⟨_, readNumber?_shown s u, signed_near s ?_⟩
  obtain ⟨k, hk, hdigits⟩ := readDigits_fraction u
  generalize readDigits (Nat.toDigits 10 (u / 10 ^ 6) ++ fraction u) = n at hdigits ⊢
  generalize (fraction u).length = l at hk ⊢
  have hvalue : (u : ℚ) / 10 ^ 6 = n / 10 ^ l := by
    rw [← hdigits, ← hk, pow_add]
    push_cast
    rw [mul_div_mul_right _ _ (by positivity)]
  rw [hvalue] at hle ⊢
  exact ofDecimal_near (by omega) hq hle

theorem integerText_eq {s : Sign} {n : ℤ} (h : n = s.apply n.natAbs)
    (hzero : n = 0 → s = .positive) : integerText n = shown s (n.natAbs * 10 ^ 6) := by
  rw [shown_whole, integerText]
  cases s with
  | positive =>
    have hn : ¬ n < 0 := by
      simp only [Sign.apply] at h
      omega
    rw [if_neg hn]
    rfl
  | negative =>
    have hn : n < 0 := by
      have hne : n ≠ 0 := fun h0 => by cases hzero h0
      simp only [Sign.apply] at h
      omega
    rw [if_pos hn]
    rfl

theorem exists_integerText (n : ℤ) : ∃ s : Sign, n = s.apply n.natAbs ∧
    integerText n = shown s (n.natAbs * 10 ^ 6) := by
  by_cases hn : n < 0
  · have h : n = Sign.negative.apply n.natAbs := by
      simp only [Sign.apply]
      omega
    exact ⟨.negative, h, integerText_eq h (by omega)⟩
  · have h : n = Sign.positive.apply n.natAbs := by
      simp only [Sign.apply]
      omega
    exact ⟨.positive, h, integerText_eq h fun _ => rfl⟩

theorem display_of_value {x : Float} {v : ℚ} (hx : value? x.toModel.unpack = some v) :
    display x = if showsAsInteger x then .ofList (integerText (truncate (round x)))
      else .ofList (dropTrailing '.' (dropTrailing '0' (fixed 6 x))) := by
  have hnan : x.isNaN = false := by
    change x.toModel.unpack.isNaN = false
    cases hu : x.toModel.unpack with
    | notANumber => rw [hu] at hx; cases hx
    | _ => rfl
  have hinf : x.isInf = false := by
    change x.toModel.unpack.isInf = false
    cases hu : x.toModel.unpack with
    | infinity => rw [hu] at hx; cases hx
    | _ => rfl
  rw [display, hnan, hinf, if_neg Bool.false_ne_true, if_neg Bool.false_ne_true]

theorem display_fixed {x : Float} {s : Sign} {m : Nat} {e : Int} {hm : 0 < m}
    (hx : x.toModel.unpack = .finite s m e hm) (h : showsAsInteger x = false) :
    display x = .ofList (shown s (decimalUnits 6 m e)) := by
  have hvalue : value? x.toModel.unpack = some (factor s * (m * 2 ^ e)) := by
    rw [hx, value_finite]
  rw [display_of_value hvalue, if_neg (by simp [h]), fixed, hx]
  exact congrArg _ (dropTrailing_pointed s _)

theorem nano_value : value? (1e-9 : Float).toModel.unpack =
    some (4835703278458517 * 2 ^ (-82 : Int)) :=
  value_positive (m := 4835703278458517) (by decide) rfl rfl

theorem halfMicro_value : value? (5e-7 : Float).toModel.unpack =
    some (4722366482869645 * 2 ^ (-73 : Int)) :=
  value_positive (m := 4722366482869645) (by decide) rfl rfl

theorem large_value : value? (1e15 : Float).toModel.unpack = some (10 ^ 15) :=
  value_positive (m := 8000000000000000) (e := -3) (by decide) rfl (by norm_num)

theorem eq_of_abs_sub_lt {n k : ℤ} (h : |(n : ℚ) - k| < 1) : n = k := by
  have hzero : n - k = 0 := Int.abs_lt_one_iff.mp (by exact_mod_cast h)
  omega

/-- A number that is shown as an integer is close to it. -/
theorem exists_close_whole {x : Float} {v : ℚ} (hx : value? x.toModel.unpack = some v)
    (h : showsAsInteger x = true) : ∃ n : ℤ, display x = .ofList (integerText n) ∧
      |v - n| < 1 / 10 ^ 8 ∧ |(n : ℚ)| < 2 ^ 53 := by
  obtain ⟨n, hn, hnear⟩ := round_value hx
  have hshown := h
  rw [showsAsInteger, Bool.and_eq_true, decide_eq_true_iff, decide_eq_true_iff] at h
  have hclose := abs_sub_lt hx hn nano_value h.1
  obtain ⟨v', hv', hlarge⟩ := exists_abs_lt large_value h.2
  cases hx.symm.trans hv'
  refine ⟨n, ?_, hclose.trans_le (by norm_num), ?_⟩
  · rw [display_of_value hx, if_pos hshown, truncate_of_value hn]
  · rw [abs_le] at hnear
    rw [abs_lt] at hlarge ⊢
    constructor <;> linarith

/-- A number below a half is shown as an integer just if it is tiny. -/
theorem showsAsInteger_iff_of_small {x : Float} {v : ℚ} (hx : value? x.toModel.unpack = some v)
    (hv : |v| < 1 / 2) :
    showsAsInteger x = true ↔ |v| < 4835703278458517 * 2 ^ (-82 : Int) := by
  obtain ⟨n, hn, hnear⟩ := round_value hx
  have hzero : n = 0 := by
    apply eq_of_abs_sub_lt
    rw [abs_le] at hnear
    rw [abs_lt] at hv ⊢
    push_cast
    constructor <;> linarith
  have hround := sub_rounds hx hn
  rw [hzero, Int.cast_zero, sub_zero] at hround
  have hsub := abs_value (hround.eq (hasBits_of_value hx))
  have hlarge : x.abs < 1e15 := by
    rw [lt_iff_value (abs_value hx) large_value]
    exact hv.trans (by norm_num)
  rw [showsAsInteger, Bool.and_eq_true, decide_eq_true_iff, decide_eq_true_iff,
    and_iff_left hlarge, lt_iff_value hsub nano_value]

/-- A whole number is shown as an integer, if need be without decimals. -/
theorem display_of_whole {x : Float} {n : ℤ} (hx : value? x.toModel.unpack = some (n : ℚ)) :
    display x = .ofList (integerText n) := by
  cases h : showsAsInteger x with
  | true =>
    obtain ⟨k, hk, hclose, -⟩ := exists_close_whole hx h
    rw [hk, eq_of_abs_sub_lt (hclose.trans_le (by norm_num))]
  | false =>
    obtain ⟨s, hs, htext⟩ := exists_integerText n
    have hne : n ≠ 0 := by
      rintro rfl
      have hsmall := showsAsInteger_iff_of_small hx (by norm_num)
      rw [h, Int.cast_zero, abs_zero] at hsmall
      exact Bool.false_ne_true (hsmall.mpr (by norm_num))
    have habs : factor s * n = n.natAbs := by
      nth_rewrite 1 [hs]
      rw [cast_apply, factor_mul_factor, Int.cast_natCast]
    have hpos : 0 < factor s * n := by
      rw [habs]
      exact_mod_cast Int.natAbs_pos.mpr hne
    obtain ⟨m, e, hm, hu, hvalue⟩ := exists_finite_of_sign hx hpos
    rw [habs] at hvalue
    have hunits : decimalUnits 6 m e = n.natAbs * 10 ^ 6 := by
      apply decimalUnits_eq
      rw [hvalue]
      push_cast
      norm_num
    rw [display_fixed hu h, hunits, htext]

/-- The text of `x` is read as a number that is shown in the same way. -/
def Stable (x : Float) : Prop :=
  ∃ w, Value.readNumber? (display x) = some w ∧ display w = display x

theorem stable_of_integerText {x : Float} {n : ℤ} (hn : |(n : ℚ)| < 2 ^ 53)
    (hx : display x = .ofList (integerText n)) : Stable x := by
  obtain ⟨s, hs, htext⟩ := exists_integerText n
  have hnat : ((n.natAbs * 10 ^ 6 : Nat) : ℚ) / 10 ^ 6 = |(n : ℚ)| := by
    rw [Nat.cast_mul, Nat.cast_pow, Nat.cast_ofNat, mul_div_cancel_right₀ _ (by positivity),
      Nat.cast_natAbs, Int.cast_abs]
  have hbits : HasBits |(n : ℚ)| := by
    rw [HasBits, abs_abs]
    exact hasBits_int hn
  obtain ⟨w, hw, hnear⟩ := readNumber?_shown_near s hbits hnat.le
  have hwhole : factor s * |(n : ℚ)| = n := by
    nth_rewrite 2 [hs]
    rw [cast_apply, Int.cast_natCast, Nat.cast_natAbs, Int.cast_abs]
  rw [hnat, hwhole] at hnear
  refine ⟨w, by rw [hx, htext, hw], ?_⟩
  rw [display_of_whole (hnear.eq (hasBits_int hn)), hx]

/-- No two numbers are one millionth apart. -/
theorem sub_ne_millionth {x y : Float} {v w : ℚ} (hx : value? x.toModel.unpack = some v)
    (hy : value? y.toModel.unpack = some w) : |v - w| ≠ 1 / 10 ^ 6 := by
  obtain ⟨a, rfl⟩ := exists_multiple hx
  obtain ⟨b, rfl⟩ := exists_multiple hy
  obtain ⟨k, hk⟩ : ∃ k : Nat, (2 : ℚ) ^ (-1074 : Int) = 1 / 2 ^ k :=
    ⟨1074, by rw [zpow_neg, one_div, ← zpow_natCast, Nat.cast_ofNat]⟩
  intro h
  rw [hk, ← sub_mul, abs_mul, abs_of_pos (by positivity : (0 : ℚ) < 1 / 2 ^ k), ← mul_div_assoc,
    mul_one, div_eq_div_iff (by positivity) (by positivity), one_mul] at h
  have hint : |a - b| * 10 ^ 6 = 2 ^ k := by exact_mod_cast h
  have hdvd : (5 : ℤ) ∣ 2 ^ k := hint ▸ Dvd.dvd.mul_left (by norm_num) _
  have hprime : Prime (5 : ℤ) := Int.prime_iff_natAbs_prime.mpr (by norm_num)
  exact absurd (hprime.dvd_of_dvd_pow hdvd) (by norm_num)

/-- A decimal with six places that is near a number has a number above it. -/
theorem exists_bits_above {m : Nat} {e : Int} (hc : Canonical m e) (he : e ≤ 971) :
    ∃ q, HasBits q ∧ (decimalUnits 6 m e : ℚ) / 10 ^ 6 ≤ q := by
  by_cases hpos : 0 ≤ e
  · obtain ⟨k, rfl⟩ := Int.eq_ofNat_of_zero_le hpos
    have hunits : decimalUnits 6 m k = m * 2 ^ k * 10 ^ 6 := by
      apply decimalUnits_eq
      rw [zpow_natCast]
      push_cast
      norm_num
    refine ⟨m * 2 ^ (k : Int), ⟨m, k, hc.lt, hc.least, he, abs_of_nonneg (by positivity)⟩, ?_⟩
    rw [hunits, zpow_natCast, Nat.cast_mul, Nat.cast_mul, Nat.cast_pow, Nat.cast_pow,
      Nat.cast_ofNat, Nat.cast_ofNat, mul_div_cancel_right₀ _ (by positivity)]
  · have hnear := (abs_le.mp (decimalUnits_near 6 m e)).2
    have hm : (m : ℚ) + 1 ≤ 2 ^ 53 := by exact_mod_cast hc.lt
    have hhalf : (2 : ℚ) ^ e ≤ 2 ^ (-1 : Int) := zpow_le_zpow_right₀ (by norm_num) (by omega)
    have hle : (m : ℚ) * 2 ^ e ≤ m * 2 ^ (-1 : Int) := by gcongr
    refine ⟨((2 ^ 52 : ℤ) : ℚ), hasBits_int (by norm_num), ?_⟩
    rw [show (2 : ℚ) ^ (-1 : Int) = 1 / 2 by norm_num] at hle
    rw [div_le_iff₀ (by positivity), Int.cast_pow, Int.cast_ofNat]
    linarith

theorem eq_of_value {x y : Float} {v : ℚ} (hx : value? x.toModel.unpack = some v)
    (hy : value? y.toModel.unpack = some v) (hv : v ≠ 0) : x = y := by
  rcases eq_or_zeros_of_beq ((beq_iff_value hx hy).mpr rfl) with h | ⟨⟨s, hs⟩, -⟩
  · exact h
  · rw [hs] at hx
    cases hx
    exact absurd rfl hv

/-- What is read back is strictly within half a unit of what was shown, as no number is exactly as
far from it as the number that was shown may be. -/
theorem units_of_near {x w : Float} {s : Sign} {v W : ℚ} {u : Nat}
    (hx : value? x.toModel.unpack = some (factor s * v)) (hW : value? w.toModel.unpack = some W)
    (hnear : ∀ q, HasBits q → |W - factor s * (u / 10 ^ 6)| ≤ |q - factor s * (u / 10 ^ 6)|)
    (hunits : |(u : ℚ) - v * 10 ^ 6| ≤ 1 / 2) (hne : W ≠ factor s * v) :
    |(u : ℚ) - factor s * W * 10 ^ 6| < 1 / 2 := by
  have hclose := hnear _ (hasBits_of_value hx)
  have hapart := sub_ne_millionth hW hx
  have hne : factor s * W ≠ v := fun h => hne (by rw [← h, factor_mul_factor])
  rw [← mul_sub, abs_factor_mul, ← abs_factor_mul s (W - _), mul_sub, factor_mul_factor] at hclose
  rw [← abs_factor_mul s (W - _), mul_sub, factor_mul_factor] at hapart
  generalize factor s * W = y at hne hclose hapart ⊢
  have hscale (z : ℚ) : |(u : ℚ) - z * 10 ^ 6| = |z - u / 10 ^ 6| * 10 ^ 6 := by
    rw [abs_sub_comm, ← abs_of_pos (by positivity : (0 : ℚ) < 10 ^ 6), ← abs_mul, sub_mul,
      abs_of_pos (by positivity : (0 : ℚ) < 10 ^ 6), div_mul_cancel₀ _ (by positivity)]
  rw [hscale] at hunits ⊢
  by_contra hfar
  have hv : |v - u / 10 ^ 6| = 1 / 2 / 10 ^ 6 := by linarith
  have hy : |y - u / 10 ^ 6| = 1 / 2 / 10 ^ 6 := by linarith
  rcases (abs_eq (by positivity)).mp hv with hv | hv <;>
    rcases (abs_eq (by positivity)).mp hy with hy | hy
  · exact hne (by linarith)
  · exact hapart (by rw [abs_eq (by positivity)]; right; linarith)
  · exact hapart (by rw [abs_eq (by positivity)]; left; linarith)
  · exact hne (by linarith)

theorem stable_of_fixed {x : Float} {s : Sign} {m : Nat} {e : Int} {hm : 0 < m}
    (hx : x.toModel.unpack = .finite s m e hm) (h : showsAsInteger x = false)
    (hu : 0 < decimalUnits 6 m e) : Stable x := by
  obtain ⟨hc, he⟩ := unpack_finite hx
  obtain ⟨q, hq, hle⟩ := exists_bits_above hc he
  obtain ⟨w, hw, W, hW, hnear⟩ := readNumber?_shown_near s hq hle
  have hshown := display_fixed hx h
  have hunits := decimalUnits_near 6 m e
  have hpos : (0 : ℚ) < m * 2 ^ e := by positivity
  have hx : value? x.toModel.unpack = some (factor s * (m * 2 ^ e)) := by rw [hx, value_finite]
  generalize decimalUnits 6 m e = u at hu hle hw hnear hshown hunits
  generalize (m : ℚ) * 2 ^ e = v at hx hunits hpos
  refine ⟨w, by rw [hshown, hw], ?_⟩
  by_cases hsame : w = x
  · rw [hsame]
  · have hne : factor s * v ≠ 0 := by
      rw [← abs_pos, abs_factor_mul]
      exact abs_pos.mpr hpos.ne'
    have hhalf := units_of_near hx hW hnear hunits fun h => hsame (eq_of_value (h ▸ hW) hx hne)
    have hu : (1 : ℚ) ≤ u := by exact_mod_cast hu
    have hW' : 0 < factor s * W := by
      rw [abs_lt] at hhalf
      linarith
    obtain ⟨m', e', hm', hwu, hvalue⟩ := exists_finite_of_sign hW hW'
    rw [← hvalue] at hhalf
    cases hi : showsAsInteger w with
    | false => rw [display_fixed hwu hi, decimalUnits_eq hhalf, hshown]
    | true =>
      obtain ⟨n, hn, hclose, -⟩ := exists_close_whole hW hi
      have hwhole : (u : ℤ) = s.apply n * 10 ^ 6 := by
        rw [← abs_factor_mul s, mul_sub, ← hvalue, ← cast_apply, abs_lt] at hclose
        apply eq_of_abs_sub_lt
        push_cast
        rw [abs_lt] at hhalf ⊢
        constructor <;> linarith
      have hnat : s.apply n = n.natAbs := by
        have : (1 : ℤ) ≤ u := by exact_mod_cast hu
        cases s <;> simp only [Sign.apply] at hwhole ⊢ <;> omega
      have hsign : n = s.apply n.natAbs := by rw [← hnat, apply_apply]
      have hunits : n.natAbs * 10 ^ 6 = u := by
        rw [hnat] at hwhole
        exact_mod_cast hwhole.symm
      have hzero : n ≠ 0 := by
        rintro rfl
        rw [← hunits] at hu
        norm_num at hu
      rw [hn, integerText_eq hsign fun h => absurd h hzero, hunits, hshown]

theorem eq_infinity {x : Float} {s : Sign} (hx : x.toModel.unpack = .infinity s) :
    x = signed s infinity := by
  apply eq_of_unpack
  rw [hx]
  cases s <;> rfl

theorem stable_of_infinity {x : Float} {s : Sign} (hx : x.toModel.unpack = .infinity s) :
    Stable x := by
  refine ⟨x, ?_, rfl⟩
  rw [eq_infinity hx]
  cases s <;> decide +kernel

theorem le_iff_value {x y : Float} {v w : ℚ} (hx : value? x.toModel.unpack = some v)
    (hy : value? y.toModel.unpack = some w) : x ≤ y ↔ v ≤ w := by
  rw [le_iff_rank (rank_coe_of_value hx) (rank_coe_of_value hy)]
  exact WithBotTop.coe_strictMono.le_iff_le

/-- The negative numbers that are shown as a zero with a sign. -/
def ShownAsMinusZero (x : Float) : Prop :=
  -5e-7 ≤ x ∧ x ≤ -1e-9

theorem HasBits.le_of_lt_succ {q : ℚ} (hq : HasBits q) (hpos : 0 ≤ q) {m : Nat} {e : Int}
    (hm : 2 ^ 52 ≤ m) (h : q < (m + 1) * 2 ^ e) : q ≤ m * 2 ^ e := by
  obtain ⟨a, g, ha, -, -, habs⟩ := hq
  rw [abs_of_nonneg hpos] at habs
  rcases le_or_gt e g with hge | hlt
  · obtain ⟨k, rfl⟩ := Int.le.dest hge
    rw [habs, zpow_add_nat, ← mul_assoc] at h ⊢
    have hlt := lt_of_mul_lt_mul_right h (zpow_pos two_pos e).le
    have hle : a * 2 ^ k ≤ m := Nat.le_of_lt_succ (by exact_mod_cast hlt)
    gcongr
    exact_mod_cast hle
  · have hm : (2 : ℚ) ^ 52 ≤ m := by exact_mod_cast hm
    rw [habs]
    exact (zpow_lt_of_lt ha hlt).le.trans (by gcongr)

theorem shownAsMinusZero_iff {x : Float} {s : Sign} {m : Nat} {e : Int} {hm : 0 < m}
    (hx : x.toModel.unpack = .finite s m e hm) : ShownAsMinusZero x ↔
      s = .negative ∧ showsAsInteger x = false ∧ decimalUnits 6 m e = 0 := by
  have hvalue : value? x.toModel.unpack = some (factor s * (m * 2 ^ e)) := by rw [hx, value_finite]
  have hpos : (0 : ℚ) < m * 2 ^ e := by positivity
  have hbits := (hasBits_of_value hvalue).factor_mul s
  have hsmall := showsAsInteger_iff_of_small hvalue
  rw [factor_mul_factor] at hbits
  rw [abs_factor_mul, abs_of_pos hpos] at hsmall
  have hunits := decimalUnits_near 6 m e
  rw [ShownAsMinusZero, le_iff_value (neg_value halfMicro_value) hvalue,
    le_iff_value hvalue (neg_value nano_value)]
  constructor
  · rintro ⟨hlow, hhigh⟩
    cases s with
    | positive =>
      rw [factor, one_mul] at hhigh
      norm_num at hhigh
      linarith
    | negative =>
      rw [factor, neg_one_mul] at hlow hhigh
      norm_num at hlow hhigh hsmall
      refine ⟨rfl, ?_, decimalUnits_eq ?_⟩
      · rw [← Bool.not_eq_true, hsmall (by linarith)]
        linarith
      · rw [Nat.cast_zero, zero_sub, abs_neg, abs_of_pos (by positivity)]
        linarith
  · rintro ⟨rfl, hshows, hzero⟩
    rw [hzero, Nat.cast_zero, zero_sub, abs_neg, abs_of_pos (by positivity)] at hunits
    have hle : (m : ℚ) * 2 ^ e ≤ (4722366482869645 : Nat) * 2 ^ (-73 : Int) :=
      hbits.le_of_lt_succ hpos.le (by norm_num) (by norm_num; linarith)
    have htiny := (hsmall (by linarith)).not.mp (by simp [hshows])
    rw [factor, neg_one_mul]
    push_cast at hle
    exact ⟨neg_le_neg hle, neg_le_neg (not_lt.mp htiny)⟩

/-- How the text of `x` is read: as a number with the same text, or as a zero without a sign. -/
def ReadBack (x w : Float) : Prop :=
  Value.readNumber? (display x) = some w ∧ (display w = display x ↔ ¬ ShownAsMinusZero x) ∧
    (ShownAsMinusZero x → display x = "-0" ∧ display w = "0")

theorem Stable.readBack {x : Float} (h : Stable x) (hx : ¬ ShownAsMinusZero x) :
    ∃ w, ReadBack x w := by
  obtain ⟨w, hw, hshown⟩ := h
  exact ⟨w, hw, iff_of_true hshown hx, fun h => absurd h hx⟩

theorem readBack_of_no_units {x : Float} {s : Sign} {m : Nat} {e : Int} {hm : 0 < m}
    (hx : x.toModel.unpack = .finite s m e hm) (h : showsAsInteger x = false)
    (hzero : decimalUnits 6 m e = 0) : ∃ w, ReadBack x w := by
  obtain ⟨w, hw, hnear⟩ := readNumber?_shown_near s (u := 0) hasBits_zero (by simp)
  rw [Nat.cast_zero, zero_div, mul_zero] at hnear
  have hwhole : value? w.toModel.unpack = some ((0 : ℤ) : ℚ) := by
    rw [Int.cast_zero]
    exact hnear.eq hasBits_zero
  have hsign : ShownAsMinusZero x ↔ s = .negative := by
    rw [shownAsMinusZero_iff hx, and_iff_left ⟨h, hzero⟩]
  refine ⟨w, ?_⟩
  rw [ReadBack, hsign, display_of_whole hwhole, display_fixed hx h, hzero]
  cases s with
  | positive => exact ⟨hw, iff_of_true rfl (by rintro ⟨⟩), by rintro ⟨⟩⟩
  | negative =>
    exact ⟨hw, iff_of_false (by decide +kernel) fun h => h rfl, fun _ => by decide +kernel⟩

/-- The text of a number is read as a number that is shown in the same way, unless the number is
shown as a zero with a sign. -/
theorem display_stable_iff (x : Float) (hx : x.isNaN = false) :
    ∃ w, Value.readNumber? (display x) = some w ∧ (display w = display x ↔ ¬ ShownAsMinusZero x) ∧
      (ShownAsMinusZero x → display x = "-0" ∧ display w = "0") := by
  change ∃ w, ReadBack x w
  cases hu : x.toModel.unpack with
  | notANumber =>
    have hnan : x.toModel.unpack.isNaN = false := hx
    rw [hu] at hnan
    cases hnan
  | infinity s =>
    apply (stable_of_infinity hu).readBack
    rw [eq_infinity hu, ShownAsMinusZero]
    cases s <;> decide +kernel
  | zero s =>
    have hvalue : value? x.toModel.unpack = some ((0 : ℤ) : ℚ) := by
      rw [hu, Int.cast_zero]
      rfl
    apply (stable_of_integerText (by norm_num) (display_of_whole hvalue)).readBack
    rintro ⟨-, hneg⟩
    rw [le_iff_value hvalue (neg_value nano_value)] at hneg
    norm_num at hneg
  | finite s m e hm =>
    have hvalue : value? x.toModel.unpack = some (factor s * (m * 2 ^ e)) := by
      rw [hu, value_finite]
    cases hshows : showsAsInteger x with
    | true =>
      obtain ⟨n, hn, -, hlarge⟩ := exists_close_whole hvalue hshows
      refine (stable_of_integerText hlarge hn).readBack fun h => ?_
      exact Bool.false_ne_true (((shownAsMinusZero_iff hu).mp h).2.1.symm.trans hshows)
    | false =>
      by_cases hzero : decimalUnits 6 m e = 0
      · exact readBack_of_no_units hu hshows hzero
      · refine (stable_of_fixed hu hshows (Nat.pos_of_ne_zero hzero)).readBack fun h => ?_
        exact hzero ((shownAsMinusZero_iff hu).mp h).2.2

/-- A third and what is read from its text are both shown as `0.333333`. -/
theorem display_stable_third : (1 / 3 : Float).isNaN = false ∧
    ∃ w, Value.readNumber? (display (1 / 3)) = some w ∧ display w = display (1 / 3) := by
  have hnan : (1 / 3 : Float).isNaN = false := by decide +kernel
  have hshown : ¬ ShownAsMinusZero (1 / 3) := by
    rw [ShownAsMinusZero]
    decide +kernel
  obtain ⟨w, hw, hiff, -⟩ := display_stable_iff (1 / 3) hnan
  exact ⟨hnan, w, hw, hiff.mpr hshown⟩

/-- Of a tiny negative number only the sign is shown, and the zero that is read from the text is
shown without it. -/
theorem display_unstable_tiny : (-1e-7 : Float).isNaN = false ∧
    Value.readNumber? (display (-1e-7)) = some (-0.0) ∧ display (-0.0) ≠ display (-1e-7) := by
  decide +kernel

end BlockScript.Number

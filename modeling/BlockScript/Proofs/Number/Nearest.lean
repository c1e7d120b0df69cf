import BlockScript.Proofs.Number.Exact

/-! Rounding to the nearest number. The bits that a shift drops still tell on which side of a half
the exact value is, so the rounded value is as near to it as any number of 53 bits. Quotients and
products of finite numbers are rounded in this way. -/

namespace BlockScript.Number

open Float.Model (UnpackedFloat Format totalExponent)
open Float.Model.UnpackedFloat

def factor : Sign → ℚ
  | .positive => 1
  | .negative => -1

@[simp] theorem factor_mul_factor (s : Sign) (x : ℚ) : factor s * (factor s * x) = x := by
  cases s <;> simp [factor]

@[simp] theorem abs_factor_mul (s : Sign) (x : ℚ) : |factor s * x| = |x| := by
  cases s <;> simp [factor]

theorem cast_apply (s : Sign) (n : ℤ) : ((s.apply n : ℤ) : ℚ) = factor s * n := by
  cases s <;> simp [factor, Sign.apply]

theorem value_finite (s : Sign) (m : Nat) (e : Int) (hm : 0 < m) :
    value? (.finite s m e hm) = some (factor s * (m * 2 ^ e)) := by
  rw [value?, cast_apply, Int.cast_natCast, mul_assoc]

theorem exists_finite_of_sign {x : Float} {v : ℚ} (hx : value? x.toModel.unpack = some v) {s : Sign}
    (hv : 0 < factor s * v) : ∃ m e, ∃ hm : 0 < m, x.toModel.unpack = .finite s m e hm ∧
      (m : ℚ) * 2 ^ e = factor s * v := by
  generalize x.toModel.unpack = u at hx
  cases u with
  | notANumber | infinity => cases hx
  | zero s' =>
    cases hx
    rw [mul_zero] at hv
    exact absurd hv (lt_irrefl 0)
  | finite s' m e hm =>
    rw [value_finite, Option.some.injEq] at hx
    have hpos : (0 : ℚ) < m * 2 ^ e := by positivity
    subst hx
    have hs : s' = s := by
      cases s <;> cases s' <;> simp only [factor] at hv <;> first | rfl | linarith
    subst hs
    exact ⟨m, e, hm, rfl, (factor_mul_factor _ _).symm⟩

/-- The bits after the mantissa tell where `x` is on the way to the next mantissa. -/
structure Holds (em : ExtendedMantissa) (x : ℚ) : Prop where
  le : em.mantissa ≤ x
  lt : x < em.mantissa + 1
  round : em.roundBit = true ↔ em.mantissa + 1 / 2 ≤ x
  sticky : em.stickyBit = true ↔ x ≠ em.mantissa ∧ x ≠ em.mantissa + 1 / 2

theorem Holds.shiftRightOne {em : ExtendedMantissa} {x : ℚ} (h : Holds em x) :
    Holds em.shiftRightOne (x / 2) := by
  obtain ⟨m, r, s⟩ := em
  obtain ⟨hle, hlt, hround, hsticky⟩ := h
  simp only at hle hlt hround hsticky
  have hinexact : (r || s) = true ↔ x ≠ m := by
    rw [Bool.or_eq_true, hround, hsticky]
    constructor
    · rintro (h | h)
      · linarith
      · exact h.1
    · intro h
      by_cases hhalf : x = m + 1 / 2
      · exact .inl hhalf.ge
      · exact .inr ⟨h, hhalf⟩
  obtain ⟨n, rfl | rfl⟩ := m.even_or_odd'
  · have hem : ExtendedMantissa.shiftRightOne ⟨2 * n, r, s⟩ = ⟨n, false, r || s⟩ := by
      simp [ExtendedMantissa.shiftRightOne]
    push_cast at hle hlt hinexact
    rw [hem]
    refine ⟨by simp only; linarith, by simp only; linarith, ?_, ?_⟩
    · exact iff_of_false Bool.false_ne_true (by simp only; linarith)
    · rw [hinexact]
      constructor
      · exact fun h => ⟨fun h' => h (by linarith), fun h' => by linarith⟩
      · exact fun h h' => h.1 (by linarith)
  · have hem : ExtendedMantissa.shiftRightOne ⟨2 * n + 1, r, s⟩ = ⟨n, true, r || s⟩ := by
      simp [ExtendedMantissa.shiftRightOne]
      omega
    push_cast at hle hlt hinexact
    rw [hem]
    refine ⟨by simp only; linarith, by simp only; linarith, ?_, ?_⟩
    · exact iff_of_true rfl (by simp only; linarith)
    · rw [hinexact]
      constructor
      · exact fun h => ⟨fun h' => by linarith, fun h' => h (by linarith)⟩
      · exact fun h h' => h.2 (by linarith)

theorem Holds.shiftRight {em : ExtendedMantissa} {x : ℚ} (h : Holds em x) (k : Nat) :
    Holds (em >>> k) (x / 2 ^ k) := by
  change Holds (Nat.repeat _ k em) _
  induction k with
  | zero => simpa [Nat.repeat] using h
  | succ k ih =>
    rw [Nat.repeat, pow_succ, ← div_div]
    exact ih.shiftRightOne

theorem Holds.rounded {em : ExtendedMantissa} {x : ℚ} (h : Holds em x) :
    |(em.roundedMantissa : ℚ) - x| ≤ 1 / 2 := by
  obtain ⟨m, r, s⟩ := em
  obtain ⟨hle, hlt, hround, hsticky⟩ := h
  simp only at hle hlt hround hsticky
  rw [abs_le]
  cases r with
  | false =>
    -- Below the half, whether exact or not.
    have hlow : x < m + 1 / 2 := by simpa using hround
    have hdown : ExtendedMantissa.roundedMantissa ⟨m, false, s⟩ = m := by cases s <;> rfl
    rw [hdown]
    constructor <;> linarith
  | true =>
    have hhigh : m + 1 / 2 ≤ x := by simpa using hround
    cases s with
    | false =>
      have hhalf : x = m + 1 / 2 := by
        by_contra hne
        exact absurd (hsticky.mpr ⟨by linarith, hne⟩) Bool.false_ne_true
      have hup := roundedMantissa_bounds ⟨m, true, false⟩
      have hlow : (m : ℚ) ≤ (ExtendedMantissa.roundedMantissa ⟨m, true, false⟩ : ℚ) := by
        exact_mod_cast hup.1
      have hhigh : (ExtendedMantissa.roundedMantissa ⟨m, true, false⟩ : ℚ) ≤ m + 1 := by
        exact_mod_cast hup.2
      constructor <;> linarith
    | true =>
      have hup : (ExtendedMantissa.roundedMantissa ⟨m, true, true⟩ : ℚ) = m + 1 := by
        exact Nat.cast_succ m
      rw [hup]
      constructor <;> linarith

/-- The value of a finite number is as near to `x` as that of any other. -/
def Near (x : ℚ) (u : UnpackedFloat) : Prop :=
  ∃ w, value? u = some w ∧ ∀ q, HasBits q → |w - x| ≤ |q - x|

theorem abs_nat_sub_le {r : Nat} {y : ℚ} (h : |(r : ℚ) - y| ≤ 1 / 2) (n : ℤ) :
    |(r : ℚ) - y| ≤ |n - y| := by
  by_cases hn : (r : ℤ) = n
  · rw [← hn, Int.cast_natCast]
  · have hone : (1 : ℚ) ≤ |(r : ℚ) - n| := by
      exact_mod_cast Int.one_le_abs (sub_ne_zero.mpr hn)
    have htriangle : |(r : ℚ) - n| ≤ |(r : ℚ) - y| + |n - y| := by
      rw [abs_sub_comm (n : ℚ) y]
      exact abs_sub_le ..
    linarith

/-- The integer nearest to `y` is, scaled, the nearest of all numbers of 53 bits. -/
theorem scaled_nearest {r : Nat} {t : Int} {y : ℚ} (h : |(r : ℚ) - y| ≤ 1 / 2)
    (hnormal : 2 ^ 52 ≤ y ∨ t = -1074) {q : ℚ} (hq : HasBits q) :
    |r * 2 ^ t - y * 2 ^ t| ≤ |q - y * 2 ^ t| := by
  have hpos : (0 : ℚ) < 2 ^ t := zpow_pos two_pos t
  have hscaled (n : ℚ) : |n * 2 ^ t - y * 2 ^ t| = |n - y| * 2 ^ t := by
    rw [← sub_mul, abs_mul, abs_of_pos hpos]
  have hint (n : ℤ) : |r * 2 ^ t - y * 2 ^ t| ≤ |n * 2 ^ t - y * 2 ^ t| := by
    rw [hscaled, hscaled]
    exact mul_le_mul_of_nonneg_right (abs_nat_sub_le h n) hpos.le
  obtain ⟨a, g, ha, hg, -, habs⟩ := hq
  rcases le_or_gt t g with htg | hgt
  · -- A multiple of `2 ^ t`.
    obtain ⟨k, rfl⟩ := Int.le.dest htg
    rw [zpow_add_nat, ← mul_assoc] at habs
    rcases eq_or_eq_neg_of_abs_eq habs with rfl | rfl
    · simpa using hint (a * 2 ^ k)
    · simpa using hint (-(a * 2 ^ k))
  · have hy : 2 ^ 52 ≤ y := hnormal.resolve_right (by omega)
    have hlt : q < 2 ^ 52 * 2 ^ t := (le_abs_self q).trans_lt (habs ▸ zpow_lt_of_lt ha hgt)
    have hle : 2 ^ 52 * 2 ^ t ≤ y * 2 ^ t := by gcongr
    have hint := hint (2 ^ 52)
    rw [Int.cast_pow, Int.cast_ofNat] at hint
    refine hint.trans ?_
    rw [abs_of_nonpos (sub_nonpos.mpr hle), abs_of_nonpos (sub_nonpos.mpr (hlt.le.trans hle))]
    exact neg_le_neg (sub_le_sub_right hlt.le _)

/-- The value that is rounded, in units of the last place that is kept. -/
theorem target_bounds {m : Nat} {e : Int} {x : ℚ} (h : e ≤ target m e) (hlow : m ≤ x)
    (hhigh : x < m + 1) :
    (2 ^ 52 ≤ x / 2 ^ (target m e - e).toNat ∨ target m e = -1074) ∧
      x / 2 ^ (target m e - e).toNat < 2 ^ 53 := by
  generalize ht : target m e = t at h
  have hk : ((t - e).toNat : Int) = t - e := by omega
  generalize (t - e).toNat = k at hk
  have hpos : (0 : ℚ) < 2 ^ k := by positivity
  unfold target at ht
  constructor
  · by_cases hleast : t = -1074
    · exact .inr hleast
    · left
      have hm : m ≠ 0 := by
        rintro rfl
        rw [Nat.log2_zero] at ht
        omega
      have hself : 2 ^ 52 * 2 ^ k ≤ m := by
        have hlog : m.log2 = 52 + k := by omega
        rw [← Nat.pow_add, ← hlog]
        exact Nat.log2_self_le hm
      have hself : (2 : ℚ) ^ 52 * 2 ^ k ≤ m := by exact_mod_cast hself
      rw [le_div_iff₀ hpos]
      exact hself.trans hlow
  · have hself : m + 1 ≤ 2 ^ 53 * 2 ^ k := by
      rw [← Nat.pow_add]
      exact Nat.lt_log2_self.trans_le (Nat.pow_le_pow_right (by omega) (by omega))
    have hself : (m : ℚ) + 1 ≤ 2 ^ 53 * 2 ^ k := by exact_mod_cast hself
    rw [div_lt_iff₀ hpos]
    exact hhigh.trans_le hself

theorem IsScaled.near {r : Nat} {t : Int} {u : UnpackedFloat} (h : IsScaled .positive r t u)
    {x q : ℚ} (hnear : ∀ p, HasBits p → |r * 2 ^ t - x| ≤ |p - x|) (hq : HasBits q) (hle : x ≤ q) :
    Near x (Float.Model.pack u).unpack := by
  refine ⟨r * 2 ^ t, ?_, hnear⟩
  cases h with
  | zero h0 =>
    rw [h0, Nat.cast_zero, zero_mul]
    rfl
  | @finite m e hm hc hv =>
    have he : e ≤ 971 := by
      -- Nothing past `q` is as near to `x` as `q` is.
      have hmost : r * 2 ^ t ≤ q := by
        have hpast := hnear q hq
        rw [abs_of_nonneg (by linarith : 0 ≤ q - x)] at hpast
        have := (abs_le.mp hpast).2
        linarith
      by_contra hover
      have := hq.lt_overflow hc (by omega)
      have := le_abs_self q
      linarith
    rw [unpack_pack_canonical hc he, value?, Sign.apply, Int.cast_natCast, hv]

/-- Rounding to an integer is not past an integer bound. -/
theorem rounded_bounds {r : Nat} {y : ℚ} (h : |(r : ℚ) - y| ≤ 1 / 2) :
    (y < 2 ^ 53 → r ≤ 2 ^ 53) ∧ (2 ^ 52 ≤ y → 2 ^ 52 ≤ r) := by
  obtain ⟨hdown, hup⟩ := abs_le.mp h
  constructor
  · intro hy
    have hlt : (r : ℚ) < 2 ^ 53 + 1 := by linarith
    exact Nat.le_of_lt_succ (by exact_mod_cast hlt)
  · intro hy
    have hlt : (2 : ℚ) ^ 52 < r + 1 := by linarith
    exact Nat.le_of_lt_succ (by exact_mod_cast hlt)

theorem roundWithAccuracy_near {m : Nat} {e : Int} {a : Accuracy} {x q : ℚ} (h : e ≤ target m e)
    (hx : Holds (.ofMantissaAndAccuracy m a) x) (hq : HasBits q) (hle : x * 2 ^ e ≤ q) :
    Near (x * 2 ^ e)
      (Float.Model.pack (roundWithAccuracy .binary64 .positive m e a)).unpack := by
  have hlow := hx.le
  have hhigh := hx.lt
  rw [mantissa_ofMantissaAndAccuracy] at hlow hhigh
  obtain ⟨hnormal, hbits⟩ := target_bounds h hlow hhigh
  obtain ⟨k, hk⟩ := Int.le.dest h
  have hshift : (target m e - e).toNat = k := by omega
  have hfirst : shiftToTargetExponent .binary64 m e a =
      (ExtendedMantissa.ofMantissaAndAccuracy m a >>> (target m e - e).toNat,
        e + ((target m e - e).toNat : Int)) := rfl
  rw [hshift, hk] at hfirst
  rw [hshift] at hnormal hbits
  have hround := (hx.shiftRight k).rounded
  have hscale : x * 2 ^ e = x / 2 ^ k * 2 ^ target m e := by
    rw [← hk, zpow_add_nat, ← mul_assoc, div_mul_cancel₀ x (by positivity)]
  obtain ⟨hr, hr'⟩ := rounded_bounds hround
  have hleast : -1074 ≤ target m e := by
    unfold target
    omega
  simp only [roundWithAccuracy, hfirst]
  rw [hscale] at hle ⊢
  exact (isScaled_of_shifted .positive hleast (hr hbits) (hnormal.imp_left hr')).near
    (fun p hp => scaled_nearest hround hnormal hp) hq hle

theorem holds_exact (m : Nat) : Holds (.ofMantissaAndAccuracy m .exact) m where
  le := le_rfl
  lt := lt_add_one _
  round := iff_of_false Bool.false_ne_true (by
    change ¬ (m : ℚ) + 1 / 2 ≤ m
    linarith)
  sticky := iff_of_false Bool.false_ne_true fun h => h.1 rfl

theorem holds_inexact {m : Nat} {x : ℚ} (hlow : m < x) (hhigh : x < m + 1) :
    Holds (.ofMantissaAndAccuracy m (.inexact (compare x (m + 1 / 2)))) x := by
  rcases lt_trichotomy x (m + 1 / 2) with h | h | h
  · rw [compare_lt_iff_lt.mpr h]
    exact ⟨hlow.le, hhigh, iff_of_false Bool.false_ne_true h.not_ge,
      iff_of_true rfl ⟨hlow.ne', h.ne⟩⟩
  · rw [compare_eq_iff_eq.mpr h]
    exact ⟨hlow.le, hhigh, iff_of_true rfl h.ge, iff_of_false Bool.false_ne_true fun h' => h'.2 h⟩
  · rw [compare_gt_iff_gt.mpr h]
    exact ⟨hlow.le, hhigh, iff_of_true rfl h.le, iff_of_true rfl ⟨hlow.ne', h.ne'⟩⟩

theorem compare_half (m r : Nat) {d : Nat} (hd : 0 < d) :
    compare (2 * r) d = compare (m + (r / d : ℚ)) (m + 1 / 2) := by
  have hpos : (0 : ℚ) < d := by exact_mod_cast hd
  have hiff : (m + (r / d : ℚ) < m + 1 / 2 ↔ 2 * r < d) ∧
      (m + 1 / 2 < m + (r / d : ℚ) ↔ d < 2 * r) := by
    rw [add_lt_add_iff_left, add_lt_add_iff_left, div_lt_div_iff₀ hpos two_pos,
      div_lt_div_iff₀ two_pos hpos, one_mul, mul_comm (r : ℚ)]
    norm_cast
  rcases lt_trichotomy (2 * r) d with h | h | h
  · rw [Nat.compare_eq_lt.mpr h, compare_lt_iff_lt.mpr (hiff.1.mpr h)]
  · rw [Nat.compare_eq_eq.mpr h, compare_eq_iff_eq.mpr]
    exact le_antisymm (not_lt.mp fun h' => by have := hiff.2.mp h'; omega)
      (not_lt.mp fun h' => by have := hiff.1.mp h'; omega)
  · rw [Nat.compare_eq_gt.mpr h, compare_gt_iff_gt.mpr (hiff.2.mpr h)]

theorem holds_fraction (n : Nat) {d : Nat} (hd : 0 < d) :
    Holds (.ofMantissaAndAccuracy (n / d) (accuracyOfFraction (n % d) d)) (n / d) := by
  have hpos : (0 : ℚ) < d := by exact_mod_cast hd
  have hdiv : (n : ℚ) / d = (n / d : Nat) + (n % d : Nat) / d := by
    rw [eq_comm, ← mul_right_inj' hpos.ne', mul_add, mul_div_cancel₀ _ hpos.ne',
      mul_div_cancel₀ _ hpos.ne']
    exact_mod_cast Nat.div_add_mod n d
  have hmod : ((n % d : Nat) : ℚ) < d := by exact_mod_cast Nat.mod_lt n hd
  rw [hdiv]
  by_cases hr : n % d = 0
  · rw [accuracyOfFraction, if_pos hr, hr, Nat.cast_zero, zero_div, add_zero]
    exact holds_exact _
  · rw [accuracyOfFraction, if_neg hr, compare_half (n / d) _ hd]
    have hr : (0 : ℚ) < (n % d : Nat) := by exact_mod_cast Nat.pos_of_ne_zero hr
    apply holds_inexact
    · exact lt_add_of_pos_right _ (div_pos hr hpos)
    · exact add_lt_add_right ((div_lt_one hpos).mpr hmod) _

/-- A quotient is taken with enough bits to be rounded. -/
theorem le_target_quotient {m n : Nat} (hm : 0 < m) (hn : 0 < n) {e g : Int} (hge : g ≤ e)
    (hg : g ≤ -1074 ∨ g + 53 + n.log2 ≤ e + m.log2) :
    g ≤ target ((m <<< (e - g).toNat) / n) g := by
  by_cases hleast : g ≤ -1074
  · unfold target
    omega
  · have hg : g + 53 + n.log2 ≤ e + m.log2 := hg.resolve_left hleast
    obtain ⟨k, rfl⟩ := Int.le.dest hge
    have hk : (g + (k : Int) - g).toNat = k := by omega
    have hquotient : 2 ^ 52 ≤ (m <<< k) / n := by
      rw [Nat.le_div_iff_mul_le hn, Nat.shiftLeft_eq]
      calc
        2 ^ 52 * n ≤ 2 ^ 52 * 2 ^ (n.log2 + 1) := by gcongr; exact Nat.lt_log2_self.le
        _ = 2 ^ (52 + (n.log2 + 1)) := by rw [← Nat.pow_add]
        _ ≤ 2 ^ (m.log2 + k) := Nat.pow_le_pow_right (by omega) (by omega)
        _ ≤ m * 2 ^ k := by
          rw [Nat.pow_add]
          gcongr
          exact Nat.log2_self_le (by omega)
    have hlog := (Nat.le_log2 (by omega)).mpr hquotient
    rw [hk]
    unfold target
    omega

theorem div_near {m n : Nat} {e f : Int} (hm : 0 < m) (hn : 0 < n) {q : ℚ} (hq : HasBits q)
    (hle : m * 2 ^ e / (n * 2 ^ f) ≤ q) :
    Near (m * 2 ^ e / (n * 2 ^ f)) (Float.Model.pack
      (UnpackedFloat.div .binary64
        (.finite .positive m e hm) (.finite .positive n f hn))).unpack := by
  simp only [UnpackedFloat.div, divCore]
  have htotal : Format.binary64.targetExponent (totalExponent m e - totalExponent n f) =
      max (m.log2 + 1 + e - (n.log2 + 1 + f) - 53) (-1074) := rfl
  generalize hg : min (e - f)
    (Format.binary64.targetExponent (totalExponent m e - totalExponent n f)) = g
  rw [htotal] at hg
  have hge : g ≤ e - f := by omega
  have htarget := le_target_quotient hm hn hge (by omega)
  have hvalue : ((m <<< (e - f - g).toNat : Nat) / n : ℚ) * 2 ^ g = m * 2 ^ e / (n * 2 ^ f) := by
    obtain ⟨k, hk⟩ := Int.le.dest hge
    have hshift : (e - f - g).toNat = k := by omega
    have he : e = g + k + f := by omega
    rw [hshift, Nat.shiftLeft_eq, he, zpow_add₀ two_ne_zero, zpow_add_nat]
    have hn : (n : ℚ) ≠ 0 := by positivity
    have hf : (2 : ℚ) ^ f ≠ 0 := zpow_ne_zero f two_ne_zero
    push_cast
    field_simp
  rw [← hvalue] at hle ⊢
  exact roundWithAccuracy_near htarget (holds_fraction _ hn) hq hle

theorem mul_near {m n : Nat} {e f : Int} (hm : 0 < m) (hn : 0 < n)
    (h : e + f ≤ target (m * n) (e + f)) {q : ℚ} (hq : HasBits q)
    (hle : m * 2 ^ e * (n * 2 ^ f) ≤ q) :
    Near (m * 2 ^ e * (n * 2 ^ f)) (Float.Model.pack
      (UnpackedFloat.mul .binary64
        (.finite .positive m e hm) (.finite .positive n f hn))).unpack := by
  have hvalue : ((m * n : Nat) : ℚ) * 2 ^ (e + f) = m * 2 ^ e * (n * 2 ^ f) := by
    rw [zpow_add₀ two_ne_zero]
    push_cast
    ring
  rw [← hvalue] at hle ⊢
  exact roundWithAccuracy_near h (holds_exact _) hq hle

theorem exists_finite_of_pos {x : Float} {v : ℚ} (hx : value? x.toModel.unpack = some v)
    (hv : 0 < v) : ∃ m e, ∃ hm : 0 < m,
      x.toModel.unpack = .finite .positive m e hm ∧ (m : ℚ) * 2 ^ e = v := by
  have hfinite := exists_finite_of_sign hx (s := .positive)
  rw [factor, one_mul] at hfinite
  exact hfinite hv

theorem Near.eq {x : ℚ} {u : UnpackedFloat} (h : Near x u) (hx : HasBits x) :
    value? u = some x := by
  obtain ⟨w, hw, hnear⟩ := h
  have hzero := hnear x hx
  rw [sub_self, abs_zero] at hzero
  rw [hw, sub_eq_zero.mp (abs_nonpos_iff.mp hzero)]

end BlockScript.Number

import BlockScript.Proofs.Number.Canonical

/-! The order of numbers. A sum and a difference of numbers are rounded, but never past a number
that has 53 bits, so what bounds the exact result bounds the rounded one. -/

namespace BlockScript.Number

open Float.Model (UnpackedFloat Format totalExponent)
open Float.Model.UnpackedFloat

theorem shiftRight_mantissa (em : ExtendedMantissa) (k : Nat) :
    (em >>> k).mantissa = em.mantissa / 2 ^ k := by
  change (Nat.repeat _ k em).mantissa = _
  induction k with
  | zero => simp [Nat.repeat]
  | succ k ih =>
    rw [Nat.repeat, ExtendedMantissa.shiftRightOne]
    simp only
    rw [ih, Nat.div_div_eq_div_mul, Nat.pow_succ]

theorem mantissa_ofMantissaAndAccuracy (m : Nat) (a : Accuracy) :
    (ExtendedMantissa.ofMantissaAndAccuracy m a).mantissa = m := by
  cases a with
  | exact => rfl
  | inexact o => cases o <;> rfl

theorem roundedMantissa_bounds (em : ExtendedMantissa) :
    em.mantissa ≤ em.roundedMantissa ∧ em.roundedMantissa ≤ em.mantissa + 1 := by
  obtain ⟨m, r, s⟩ := em
  cases r <;> cases s <;>
    simp only [ExtendedMantissa.roundedMantissa, ExtendedMantissa.accuracy,
      Accuracy.roundToNearestEven] <;>
    omega

/-- The mantissa `m` without its last `k` bits, rounded. -/
def rounded (m k : Nat) : Nat :=
  ((⟨m, false, false⟩ : ExtendedMantissa) >>> k).roundedMantissa

theorem le_rounded {m k n : Nat} (h : n * 2 ^ k ≤ m) : n ≤ rounded m k := by
  have hfloor := (roundedMantissa_bounds ((⟨m, false, false⟩ : ExtendedMantissa) >>> k)).1
  rw [shiftRight_mantissa] at hfloor
  exact ((Nat.le_div_iff_mul_le (Nat.two_pow_pos k)).mpr h).trans hfloor

theorem rounded_le {m k n : Nat} (h : m ≤ n * 2 ^ k) : rounded m k ≤ n := by
  rcases Nat.eq_or_lt_of_le h with rfl | hlt
  · rw [rounded, shiftRight_exact]
    exact Nat.le_refl n
  · have hceil := (roundedMantissa_bounds ((⟨m, false, false⟩ : ExtendedMantissa) >>> k)).2
    rw [shiftRight_mantissa] at hceil
    have hfloor := (Nat.div_lt_iff_lt_mul (Nat.two_pow_pos k)).mpr hlt
    exact hceil.trans hfloor

/-- The exponent to which `m * 2 ^ e` is rounded. -/
def target (m : Nat) (e : Int) : Int :=
  max (m.log2 + 1 + e - 53) (-1074)

theorem targetExponent_eq (m : Nat) (e : Int) :
    Format.binary64.targetExponent (totalExponent m e) = target m e :=
  rfl

theorem shiftToTargetExponent_eq (m : Nat) (e : Int) (h : e ≤ target m e) :
    (shiftToTargetExponent .binary64 m e .exact).1.roundedMantissa =
        rounded m (target m e - e).toNat ∧
      (shiftToTargetExponent .binary64 m e .exact).2 = target m e := by
  refine ⟨rfl, ?_⟩
  change e + ((target m e - e).toNat : Int) = target m e
  omega

theorem target_shifted {m : Nat} (hm : 0 < m) (e : Int) (k : Nat) :
    target (m * 2 ^ k) (e - k) = target m e := by
  rw [← targetExponent_eq, totalExponent_shifted hm, targetExponent_eq]

theorem target_of_small {r : Nat} {t : Int} (ht : -1074 ≤ t) (hr : r < 2 ^ 53)
    (hn : 2 ^ 52 ≤ r ∨ t = -1074) : target r t = t := by
  unfold target
  by_cases h0 : r = 0
  · subst h0
    simp only [Nat.log2_zero]
    omega
  · have hlog := (Nat.log2_lt h0).mpr hr
    rcases hn with hn | hn
    · have := log2_eq_52 hn hr
      omega
    · omega

theorem zpow_add_nat (e : Int) (k : Nat) : (2 : ℚ) ^ (e + k) = 2 ^ k * 2 ^ e := by
  rw [zpow_add₀ two_ne_zero, zpow_natCast, mul_comm]

theorem mul_zpow_le_iff (a b : Nat) (e : Int) (k : Nat) :
    (a : ℚ) * 2 ^ (e + k) ≤ b * 2 ^ e ↔ a * 2 ^ k ≤ b := by
  rw [zpow_add_nat, ← mul_assoc, mul_le_mul_iff_left₀ (zpow_pos two_pos e)]
  norm_cast

theorem le_mul_zpow_iff (a b : Nat) (e : Int) (k : Nat) :
    (b : ℚ) * 2 ^ e ≤ a * 2 ^ (e + k) ↔ b ≤ a * 2 ^ k := by
  rw [zpow_add_nat, ← mul_assoc, mul_le_mul_iff_left₀ (zpow_pos two_pos e)]
  norm_cast

/-- What `m * 2 ^ e` is rounded to: `r * 2 ^ t`, where `r` has 53 bits and is never past a multiple
of `2 ^ t`. -/
structure RoundsTo (m : Nat) (e : Int) (r : Nat) (t : Int) : Prop where
  least : -1074 ≤ t
  le : r ≤ 2 ^ 53
  normal : 2 ^ 52 ≤ r ∨ t = -1074
  low : 2 ^ 52 * (2 : ℚ) ^ t ≤ m * 2 ^ e ∨ t = -1074
  lower : ∀ n : Nat, (n : ℚ) * 2 ^ t ≤ m * 2 ^ e → n ≤ r
  upper : ∀ n : Nat, (m : ℚ) * 2 ^ e ≤ n * 2 ^ t → r ≤ n

theorem roundsTo_of_le {m : Nat} {e : Int} (hm : 0 < m) (h : e ≤ target m e) :
    RoundsTo m e (rounded m (target m e - e).toNat) (target m e) := by
  have hlog := Nat.lt_log2_self (n := m)
  generalize ht : target m e = t at h
  have hk : e + ((t - e).toNat : Int) = t := by omega
  generalize (t - e).toNat = k at hk
  have hmax : t = m.log2 + 1 + e - 53 ∨ t = -1074 := by
    unfold target at ht
    omega
  have hle : m ≤ 2 ^ 53 * 2 ^ k := by
    rw [← Nat.pow_add]
    have hpow : 2 ^ (m.log2 + 1) ≤ 2 ^ (53 + k) := by
      apply Nat.pow_le_pow_right (by omega)
      unfold target at ht
      omega
    omega
  have hge : 2 ^ 52 * 2 ^ k ≤ m ∨ t = -1074 := by
    rcases hmax with hmax | hmax
    · left
      rw [← Nat.pow_add]
      have hpow : 2 ^ m.log2 ≤ m := Nat.log2_self_le (by omega)
      have hexp : 52 + k = m.log2 := by omega
      rw [hexp]
      exact hpow
    · exact .inr hmax
  constructor
  · unfold target at ht
    omega
  · exact rounded_le hle
  · exact hge.imp_left le_rounded
  · refine hge.imp_left fun hge => ?_
    rw [← hk]
    exact_mod_cast (mul_zpow_le_iff (2 ^ 52) m e k).mpr hge
  · intro n hn
    rw [← hk, mul_zpow_le_iff] at hn
    exact le_rounded hn
  · intro n hn
    rw [← hk, le_mul_zpow_iff] at hn
    exact rounded_le hn

inductive IsScaled (s : Sign) (r : Nat) (t : Int) : UnpackedFloat → Prop
  | zero (h : r = 0) : IsScaled s r t (.zero s)
  | finite {m : Nat} {e : Int} {hm : 0 < m} (h : Canonical m e)
    (hv : (m : ℚ) * 2 ^ e = r * 2 ^ t) : IsScaled s r t (.finite s m e hm)

theorem target_carry {t : Int} (ht : -1074 ≤ t) : target (2 ^ 53) t = t + 1 := by
  have hlog : (2 ^ 53).log2 = 53 := Nat.log2_two_pow
  unfold target
  omega

/-- The second shift of a rounding takes back a carry and nothing else. -/
theorem isScaled_of_shifted (s : Sign) {r : Nat} {t : Int} (hleast : -1074 ≤ t) (hle : r ≤ 2 ^ 53)
    (hnormal : 2 ^ 52 ≤ r ∨ t = -1074) :
    IsScaled s r t
      (if h : (shiftToTargetExponent .binary64 r t .exact).1.mantissa = 0 then .zero s
      else .finite s (shiftToTargetExponent .binary64 r t .exact).1.mantissa
        (shiftToTargetExponent .binary64 r t .exact).2 (Nat.pos_of_ne_zero h)) := by
  have hshift : (shiftToTargetExponent .binary64 r t .exact) =
      ((⟨r, false, false⟩ : ExtendedMantissa) >>> (target r t - t).toNat,
        t + ((target r t - t).toNat : Int)) := rfl
  rw [hshift]
  rcases Nat.lt_or_eq_of_le hle with hlt | heq
  · have ht : (target r t - t).toNat = 0 := by
      rw [target_of_small hleast hlt hnormal]
      omega
    rw [ht]
    change IsScaled s r t (if h : r = 0 then _ else _)
    by_cases h0 : r = 0
    · rw [dif_pos h0]
      exact .zero h0
    · rw [dif_neg h0]
      refine .finite ⟨hlt, by omega, hnormal.imp_right fun h => by omega⟩ ?_
      rw [show t + ((0 : Nat) : Int) = t by omega]
      rfl
  · -- Rounding up has carried into the next bit.
    subst heq
    have ht : (target (2 ^ 53) t - t).toNat = 1 := by
      rw [target_carry hleast]
      omega
    have hhalf := shiftRight_exact (2 ^ 52) 1
    rw [ht, show 2 ^ 53 = 2 ^ 52 * 2 ^ 1 by norm_num, hhalf]
    rw [dif_neg (by norm_num)]
    refine .finite ⟨by norm_num, by omega, .inl (Nat.le_refl _)⟩ ?_
    rw [zpow_add_nat]
    push_cast
    ring

theorem roundWithAccuracy_isScaled (s : Sign) {m : Nat} {e : Int} (hm : 0 < m)
    (h : e ≤ target m e) :
    IsScaled s (rounded m (target m e - e).toNat) (target m e)
      (roundWithAccuracy .binary64 s m e .exact) := by
  have hr := roundsTo_of_le hm h
  obtain ⟨hround, hexp⟩ := shiftToTargetExponent_eq m e h
  simp only [roundWithAccuracy]
  rw [hround, hexp]
  exact isScaled_of_shifted s hr.least hr.le hr.normal

theorem round_isScaled (s : Sign) {m : Nat} (e : Int) (hm : 0 < m) :
    ∃ r t, RoundsTo m e r t ∧ IsScaled s r t (UnpackedFloat.round .binary64 s m e) := by
  let k := (e - target m e).toNat
  have hpos : 0 < m * 2 ^ k := Nat.mul_pos hm (Nat.two_pow_pos k)
  have htarget : target (m * 2 ^ k) (e - k) = target m e := target_shifted hm e k
  have hle : e - k ≤ target (m * 2 ^ k) (e - k) := by
    rw [htarget]
    omega
  have hvalue : ((m * 2 ^ k : Nat) : ℚ) * 2 ^ (e - k) = m * 2 ^ e := by
    have he : e = e - k + (k : Int) := by omega
    conv_rhs => rw [he, zpow_add_nat]
    push_cast
    ring
  have hround : UnpackedFloat.round .binary64 s m e =
      roundWithAccuracy .binary64 s (m * 2 ^ k) (e - k) .exact := by
    simp only [UnpackedFloat.round, decreaseExponent, targetExponent_eq, Nat.shiftLeft_eq]
    rfl
  refine ⟨_, _, ?_, hround ▸ roundWithAccuracy_isScaled s hpos hle⟩
  have hr := roundsTo_of_le hpos hle
  exact ⟨hr.least, hr.le, hr.normal, hvalue ▸ hr.low, hvalue ▸ hr.lower, hvalue ▸ hr.upper⟩

theorem zpow_lt_of_lt {a : Nat} {e t : Int} (ha : a < 2 ^ 53) (h : e < t) :
    (a : ℚ) * 2 ^ e < 2 ^ 52 * 2 ^ t := by
  have hpow : (2 : ℚ) ^ (e + 1) ≤ 2 ^ t := zpow_le_zpow_right₀ (by norm_num) (by omega)
  have hpos : (0 : ℚ) < 2 ^ e := zpow_pos two_pos e
  have hone : (2 : ℚ) ^ (e + 1) = 2 * 2 ^ e := by
    rw [zpow_add₀ two_ne_zero, zpow_one, mul_comm]
  have ha : (a : ℚ) < 2 ^ 53 := by exact_mod_cast ha
  calc
    (a : ℚ) * 2 ^ e < 2 ^ 53 * 2 ^ e := by gcongr
    _ = 2 ^ 52 * (2 * 2 ^ e) := by ring
    _ ≤ 2 ^ 52 * 2 ^ t := by
      rw [← hone]
      gcongr

theorem RoundsTo.lower_bits {m : Nat} {e : Int} {r : Nat} {t : Int} (h : RoundsTo m e r t)
    {a : Nat} {g : Int} (ha : a < 2 ^ 53) (hg : -1074 ≤ g) (hle : (a : ℚ) * 2 ^ g ≤ m * 2 ^ e) :
    (a : ℚ) * 2 ^ g ≤ r * 2 ^ t := by
  rcases le_or_gt t g with htg | hgt
  · -- The bound is a multiple of `2 ^ t`.
    obtain ⟨k, rfl⟩ := Int.le.dest htg
    rw [zpow_add_nat, ← mul_assoc] at hle ⊢
    have hn := h.lower (a * 2 ^ k) (by exact_mod_cast hle)
    have hn : ((a * 2 ^ k : Nat) : ℚ) ≤ r := by exact_mod_cast hn
    push_cast at hn
    gcongr
  · have hr : 2 ^ 52 ≤ r := h.normal.resolve_right (by omega)
    have hr : (2 : ℚ) ^ 52 ≤ r := by exact_mod_cast hr
    calc
      (a : ℚ) * 2 ^ g ≤ 2 ^ 52 * 2 ^ t := (zpow_lt_of_lt ha hgt).le
      _ ≤ r * 2 ^ t := by gcongr

theorem RoundsTo.upper_bits {m : Nat} {e : Int} {r : Nat} {t : Int} (h : RoundsTo m e r t)
    {a : Nat} {g : Int} (ha : a < 2 ^ 53) (hg : -1074 ≤ g) (hle : (m : ℚ) * 2 ^ e ≤ a * 2 ^ g) :
    (r : ℚ) * 2 ^ t ≤ a * 2 ^ g := by
  rcases le_or_gt t g with htg | hgt
  · obtain ⟨k, rfl⟩ := Int.le.dest htg
    rw [zpow_add_nat, ← mul_assoc] at hle ⊢
    have hn := h.upper (a * 2 ^ k) (by exact_mod_cast hle)
    have hn : (r : ℚ) ≤ ((a * 2 ^ k : Nat) : ℚ) := by exact_mod_cast hn
    push_cast at hn
    gcongr
  · have hlow := h.low.resolve_right (by omega)
    exact absurd (hlow.trans hle) (not_le.mpr (zpow_lt_of_lt ha hgt))

theorem finite_congr {s : Sign} {m m' : Nat} {e e' : Int} {hm : 0 < m} {hm' : 0 < m'}
    (h : m = m') (he : e = e') : UnpackedFloat.finite s m e hm = .finite s m' e' hm' := by
  subst h he
  rfl

theorem unpack_pack_canonical {s : Sign} {m : Nat} {e : Int} {hm : 0 < m} (h : Canonical m e)
    (he : e ≤ 971) : (Float.Model.pack (.finite s m e hm)).unpack = .finite s m e hm := by
  change UnpackedFloat.unpack .binary64 (UnpackedFloat.pack .binary64 _) = _
  have hlt := h.lt
  have hleast := h.least
  have hbits : Format.binary64.mantissaBits = 53 := rfl
  simp only [UnpackedFloat.pack, exponentBias_eq, hbits]
  rw [if_neg (by omega)]
  by_cases hn : 2 ^ 52 ≤ m
  · have hlog := log2_eq_52 hn hlt
    rw [if_pos (by omega)]
    generalize hx : (e + (1023 : Nat) + (52 : Nat) : Int).toNat = x
    have hexp : (BitVec.ofNat 11 x).toNat = x := by
      rw [BitVec.toNat_ofNat]
      omega
    have hones : BitVec.ofNat 11 x ≠ -1#11 := fun hc => by
      have : x = 2047 := hexp.symm.trans (congrArg BitVec.toNat hc)
      omega
    have hzero : BitVec.ofNat 11 x ≠ 0#11 := fun hc => by
      have : x = 0 := hexp.symm.trans (congrArg BitVec.toNat hc)
      omega
    simp only [UnpackedFloat.unpack, unpackMantissa_packComponents, unpackExponent_packComponents,
      unpackSign_components]
    rw [if_neg hones, if_neg hzero]
    apply finite_congr
    · rw [toNat_implicit, BitVec.toNat_ofNat]
      omega
    · rw [hexp, exponentBias_eq]
      omega
  · have hsub : e = -1074 := h.normal.resolve_left hn
    have hlog := (Nat.log2_lt (by omega)).mpr (show m < 2 ^ 52 by omega)
    rw [if_neg (by omega)]
    have hmant : (BitVec.ofNat 52 m).toNat = m := by
      rw [BitVec.toNat_ofNat]
      omega
    have hne : BitVec.ofNat 52 m ≠ 0#52 := fun hc => by
      have : m = 0 := hmant.symm.trans (congrArg BitVec.toNat hc)
      omega
    simp only [UnpackedFloat.unpack, unpackMantissa_packComponents, unpackExponent_packComponents,
      unpackSign_components]
    rw [if_neg (by decide), if_pos trivial, dif_neg hne]
    exact finite_congr hmant (by rw [hsub]; rfl)

theorem unpack_pack_overflow {s : Sign} {m : Nat} {e : Int} {hm : 0 < m} (he : 971 < e) :
    (Float.Model.pack (.finite s m e hm)).unpack = .infinity s := by
  change UnpackedFloat.unpack .binary64 (UnpackedFloat.pack .binary64 _) = _
  have hbias := exponentBias_eq
  have hlarge : 2 ^ 11 ≤ (e + Format.binary64.exponentBias + (52 : Nat)).toNat + 1 := by omega
  rw [UnpackedFloat.pack]
  simp only
  rw [if_pos hlarge]
  cases s <;> rfl

theorem unpack_finite {x : Float} {s : Sign} {m : Nat} {e : Int} {hm : 0 < m}
    (h : x.toModel.unpack = .finite s m e hm) : Canonical m e ∧ e ≤ 971 := by
  refine ⟨unpack_canonical h, ?_⟩
  by_contra he
  have hover : (Float.Model.pack (.finite s m e hm)).unpack = .infinity s :=
    unpack_pack_overflow (by omega)
  rw [← h, pack_unpack, h] at hover
  cases hover

def value? : UnpackedFloat → Option ℚ
  | .zero _ => some 0
  | .finite s m e _ => some (s.apply m * 2 ^ e)
  | _ => none

theorem value_positive {x : Float} {m : Nat} {e : Int} (hm : 0 < m) {q : ℚ}
    (hx : x.toModel.unpack = .finite .positive m e hm) (hq : (m : ℚ) * 2 ^ e = q) :
    value? x.toModel.unpack = some q := by
  rw [hx, value?, Sign.apply, Int.cast_natCast, hq]

def AtLeast (q : ℚ) (u : UnpackedFloat) : Prop :=
  u = .infinity .positive ∨ ∃ v ∈ value? u, q ≤ v

def AtMost (q : ℚ) (u : UnpackedFloat) : Prop :=
  u = .infinity .negative ∨ ∃ v ∈ value? u, v ≤ q

theorem AtLeast.not_atMost {p q : ℚ} {u : UnpackedFloat} (h : AtLeast q u) (hp : p < q) :
    ¬ AtMost p u := by
  rintro (rfl | ⟨v, hv, hle⟩)
  · rcases h with h | ⟨v, hv, -⟩
    · cases h
    · cases hv
  · rcases h with rfl | ⟨v', hv', hle'⟩
    · cases hv
    · cases hv.symm.trans hv'
      linarith

/-- Numbers of 53 bits that are not too large. -/
def HasBits (q : ℚ) : Prop :=
  ∃ (a : Nat) (g : Int), a < 2 ^ 53 ∧ -1074 ≤ g ∧ g ≤ 971 ∧ |q| = a * 2 ^ g

theorem HasBits.neg {q : ℚ} (h : HasBits q) : HasBits (-q) := by
  rwa [HasBits, abs_neg]

/-- The number `u` may stand for the value `v`: no number of 53 bits is between them. -/
def Rounds (v : ℚ) (u : UnpackedFloat) : Prop :=
  ∀ q, HasBits q → (q ≤ v → AtLeast q u) ∧ (v ≤ q → AtMost q u)

theorem rounds_value {v : ℚ} {u : UnpackedFloat} (h : value? u = some v) : Rounds v u :=
  fun _ _ => ⟨fun hle => .inr ⟨v, h, hle⟩, fun hle => .inr ⟨v, h, hle⟩⟩

theorem apply_mul {s : Sign} {m r : Nat} {x y : ℚ} (h : (m : ℚ) * x = r * y) :
    (s.apply m : ℚ) * x = s.apply r * y := by
  cases s with
  | positive => exact_mod_cast h
  | negative =>
    simp only [Sign.apply]
    push_cast
    linarith

theorem RoundsTo.signed {m : Nat} {e : Int} {r : Nat} {t : Int} (h : RoundsTo m e r t) (s : Sign)
    {q : ℚ} (hq : HasBits q) :
    (q ≤ s.apply m * 2 ^ e → q ≤ s.apply r * 2 ^ t) ∧
      (s.apply m * 2 ^ e ≤ q → s.apply r * 2 ^ t ≤ q) := by
  have hbits {p : ℚ} (hp : 0 ≤ p) (hb : HasBits p) :
      (p ≤ m * 2 ^ e → p ≤ r * 2 ^ t) ∧ (m * 2 ^ e ≤ p → r * 2 ^ t ≤ p) := by
    obtain ⟨a, g, ha, hg, -, habs⟩ := hb
    rw [abs_of_nonneg hp] at habs
    rw [habs]
    exact ⟨h.lower_bits ha hg, h.upper_bits ha hg⟩
  have hexact : (0 : ℚ) ≤ m * 2 ^ e := by positivity
  have hround : (0 : ℚ) ≤ r * 2 ^ t := by positivity
  cases s with
  | positive =>
    simp only [Sign.apply, Int.cast_natCast]
    refine ⟨fun hle => ?_, fun hle => (hbits (hexact.trans hle) hq).2 hle⟩
    rcases le_total q 0 with hneg | hpos
    · exact hneg.trans hround
    · exact (hbits hpos hq).1 hle
  | negative =>
    simp only [Sign.apply, Int.cast_neg, Int.cast_natCast, neg_mul]
    refine ⟨fun hle => ?_, fun hle => ?_⟩
    · have := (hbits (by linarith) hq.neg).2 (by linarith)
      linarith
    · rcases le_total q 0 with hneg | hpos
      · have := (hbits (by linarith) hq.neg).1 (by linarith)
        linarith
      · linarith

theorem HasBits.lt_overflow {q : ℚ} (h : HasBits q) {m : Nat} {e : Int} (hc : Canonical m e)
    (he : 971 < e) : |q| < m * 2 ^ e := by
  obtain ⟨a, g, ha, hg, hmost, habs⟩ := h
  have hnormal : 2 ^ 52 ≤ m := hc.normal.resolve_right (by omega)
  have hnormal : (2 : ℚ) ^ 52 ≤ m := by exact_mod_cast hnormal
  calc
    |q| = a * 2 ^ g := habs
    _ < 2 ^ 52 * 2 ^ e := zpow_lt_of_lt ha (by omega)
    _ ≤ m * 2 ^ e := by gcongr

theorem round_rounds (s : Sign) {m : Nat} (e : Int) (hm : 0 < m) :
    Rounds (s.apply m * 2 ^ e)
      (Float.Model.pack (UnpackedFloat.round .binary64 s m e)).unpack := by
  obtain ⟨r, t, hr, hu⟩ := round_isScaled s e hm
  generalize UnpackedFloat.round .binary64 s m e = u at hu
  have hscaled (h : value? (Float.Model.pack u).unpack = some ((s.apply r : ℚ) * 2 ^ t)) :
      Rounds (s.apply m * 2 ^ e) (Float.Model.pack u).unpack := by
    intro q hq
    obtain ⟨hlow, hhigh⟩ := hr.signed s hq
    exact ⟨fun hle => .inr ⟨_, h, hlow hle⟩, fun hle => .inr ⟨_, h, hhigh hle⟩⟩
  cases hu with
  | zero h0 =>
    apply hscaled
    subst h0
    cases s <;> simp [Sign.apply] <;> rfl
  | @finite f g hf hc hv =>
    have hsigned := apply_mul (s := s) hv
    rcases le_or_gt g 971 with hg | hg
    · apply hscaled
      rw [unpack_pack_canonical hc hg, value?, hsigned]
    · -- An overflow is past every number of 53 bits.
      rw [unpack_pack_overflow hg]
      intro q hq
      obtain ⟨hlow, hhigh⟩ := hr.signed s hq
      have hlt := abs_lt.mp (hq.lt_overflow hc hg)
      rw [hv] at hlt
      cases s with
      | positive =>
        simp only [Sign.apply, Int.cast_natCast] at hhigh ⊢
        exact ⟨fun _ => .inl rfl, fun hle => absurd (hhigh hle) (by linarith)⟩
      | negative =>
        simp only [Sign.apply, Int.cast_neg, Int.cast_natCast, neg_mul] at hlow ⊢
        exact ⟨fun hle => absurd (hlow hle) (by linarith), fun _ => .inl rfl⟩

theorem normalize_rounds (a g : Int) :
    Rounds (a * 2 ^ g)
      (Float.Model.pack (UnpackedFloat.normalize .binary64 a g .positive)).unpack := by
  rcases lt_trichotomy a 0 with ha | rfl | ha
  · have hround := round_rounds .negative g (show 0 < (-a).toNat by omega)
    have hcast : Sign.negative.apply ((-a).toNat : Int) = a := by
      simp only [Sign.apply]
      omega
    simpa only [UnpackedFloat.normalize, Int.compare_eq_lt.mpr ha, hcast] using hround
  · have hzero : UnpackedFloat.normalize .binary64 0 g .positive = .zero .positive := by
      simp only [UnpackedFloat.normalize, Int.compare_eq_eq.mpr rfl]
    rw [hzero]
    apply rounds_value
    simp
    rfl
  · have hround := round_rounds .positive g (show 0 < a.toNat by omega)
    have hcast : Sign.positive.apply (a.toNat : Int) = a := by
      simp only [Sign.apply]
      omega
    simpa only [UnpackedFloat.normalize, Int.compare_eq_gt.mpr ha, hcast] using hround

theorem apply_decreaseExponent (s : Sign) (m : Nat) {e g : Int} (h : g ≤ e) :
    ((s.apply (decreaseExponent m e g).1 : Int) : ℚ) * 2 ^ g = s.apply m * 2 ^ e := by
  obtain ⟨k, rfl⟩ := Int.le.dest h
  have hk : (g + (k : Int) - g).toNat = k := by omega
  simp only [decreaseExponent, hk, Nat.shiftLeft_eq]
  apply apply_mul
  rw [zpow_add_nat]
  push_cast
  ring

theorem unpack_add (x y : Float) : (x + y).toModel.unpack =
    (Float.Model.pack (UnpackedFloat.add .binary64 x.toModel.unpack y.toModel.unpack)).unpack :=
  rfl

theorem unpack_sub (x y : Float) : (x - y).toModel.unpack =
    (Float.Model.pack (UnpackedFloat.sub .binary64 x.toModel.unpack y.toModel.unpack)).unpack :=
  rfl

theorem add_rounds {x y : Float} {v w : ℚ} (hx : value? x.toModel.unpack = some v)
    (hy : value? y.toModel.unpack = some w) : Rounds (v + w) (x + y).toModel.unpack := by
  have hpack := congrArg (·.unpack) (pack_unpack x.toModel)
  have hpack' := congrArg (·.unpack) (pack_unpack y.toModel)
  rw [unpack_add]
  generalize x.toModel.unpack = u at hx hpack
  generalize y.toModel.unpack = u' at hy hpack'
  cases u with
  | notANumber | infinity => cases hx
  | zero s =>
    cases hx
    cases u' with
    | notANumber | infinity => cases hy
    | zero s' =>
      cases hy
      apply rounds_value
      cases s <;> cases s' <;> simp <;> rfl
    | finite s' m' e' hm' =>
      rw [zero_add]
      exact rounds_value ((congrArg value? hpack').trans hy)
  | finite s m e hm =>
    cases u' with
    | notANumber | infinity => cases hy
    | zero s' =>
      cases hy
      rw [add_zero]
      exact rounds_value ((congrArg value? hpack).trans hx)
    | finite s' m' e' hm' =>
      have hround := normalize_rounds (s.apply (decreaseExponent m e (min e e')).1 +
        s'.apply (decreaseExponent m' e' (min e e')).1) (min e e')
      rw [Int.cast_add, add_mul, apply_decreaseExponent s m (min_le_left e e'),
        apply_decreaseExponent s' m' (min_le_right e e')] at hround
      cases hx
      cases hy
      exact hround

theorem neg_apply (s : Sign) (a : Int) : (-s).apply a = -s.apply a := by
  cases s with
  | positive => rfl
  | negative => exact (neg_neg a).symm

theorem sub_rounds {x y : Float} {v w : ℚ} (hx : value? x.toModel.unpack = some v)
    (hy : value? y.toModel.unpack = some w) : Rounds (v - w) (x - y).toModel.unpack := by
  have hpack := congrArg (·.unpack) (pack_unpack x.toModel)
  have hcanonical := @unpack_finite y
  rw [unpack_sub]
  generalize x.toModel.unpack = u at hx hpack
  generalize y.toModel.unpack = u' at hy hcanonical
  cases u with
  | notANumber | infinity => cases hx
  | zero s =>
    cases hx
    cases u' with
    | notANumber | infinity => cases hy
    | zero s' =>
      cases hy
      apply rounds_value
      cases s <;> cases s' <;> simp <;> rfl
    | finite s' m' e' hm' =>
      obtain ⟨hc, he⟩ := hcanonical rfl
      apply rounds_value
      change value? (Float.Model.pack (.finite (-s') m' e' hm')).unpack = _
      rw [unpack_pack_canonical hc he]
      cases hy
      rw [value?, neg_apply, Int.cast_neg, neg_mul, zero_sub]
  | finite s m e hm =>
    cases u' with
    | notANumber | infinity => cases hy
    | zero s' =>
      cases hy
      rw [sub_zero]
      exact rounds_value ((congrArg value? hpack).trans hx)
    | finite s' m' e' hm' =>
      have hround := normalize_rounds (s.apply (decreaseExponent m e (min e e')).1 -
        s'.apply (decreaseExponent m' e' (min e e')).1) (min e e')
      rw [Int.cast_sub, sub_mul, apply_decreaseExponent s m (min_le_left e e'),
        apply_decreaseExponent s' m' (min_le_right e e')] at hround
      cases hx
      cases hy
      exact hround

theorem unpack_pack_infinity (s : Sign) :
    (Float.Model.pack (.infinity s)).unpack = .infinity s := by
  cases s <;> rfl

theorem add_infinity {u : UnpackedFloat} {v : ℚ} (h : value? u = some v) (s : Sign) :
    UnpackedFloat.add .binary64 (.infinity s) u = .infinity s ∧
      UnpackedFloat.add .binary64 u (.infinity s) = .infinity s := by
  cases u with
  | notANumber | infinity => cases h
  | _ => exact ⟨rfl, rfl⟩

theorem sub_infinity {u : UnpackedFloat} {v : ℚ} (h : value? u = some v) (s : Sign) :
    UnpackedFloat.sub .binary64 (.infinity s) u = .infinity s ∧
      UnpackedFloat.sub .binary64 u (.infinity s) = .infinity (-s) := by
  cases u with
  | notANumber | infinity => cases h
  | _ => exact ⟨rfl, rfl⟩

theorem add_atLeast {x y : Float} {a b q : ℚ} (hx : AtLeast a x.toModel.unpack)
    (hy : AtLeast b y.toModel.unpack) (hq : HasBits q) (h : q ≤ a + b) :
    AtLeast q (x + y).toModel.unpack := by
  rcases hx with hx | ⟨v, hx, hv⟩
  · left
    rcases hy with hy | ⟨w, hy, -⟩
    · rw [unpack_add, hx, hy]
      rfl
    · rw [unpack_add, hx, (add_infinity hy _).1, unpack_pack_infinity]
  · rcases hy with hy | ⟨w, hy, hw⟩
    · left
      rw [unpack_add, hy, (add_infinity hx _).2, unpack_pack_infinity]
    · exact (add_rounds hx hy q hq).1 (by linarith)

theorem sub_atMost {x y : Float} {a b q : ℚ} (hx : AtMost a x.toModel.unpack)
    (hy : AtLeast b y.toModel.unpack) (hq : HasBits q) (h : a - b ≤ q) :
    AtMost q (x - y).toModel.unpack := by
  rcases hx with hx | ⟨v, hx, hv⟩
  · left
    rcases hy with hy | ⟨w, hy, -⟩
    · rw [unpack_sub, hx, hy]
      rfl
    · rw [unpack_sub, hx, (sub_infinity hy _).1, unpack_pack_infinity]
  · rcases hy with hy | ⟨w, hy, hw⟩
    · left
      rw [unpack_sub, hy, (sub_infinity hx _).2, unpack_pack_infinity]
      rfl
    · exact (sub_rounds hx hy q hq).2 (by linarith)

theorem Canonical.compare {m m' : Nat} {e e' : Int} (h : Canonical m e) (h' : Canonical m' e') :
    (compare e e').then (compare m m') = compare ((m : ℚ) * 2 ^ e) (m' * 2 ^ e') := by
  have hlt {m m' : Nat} {e e' : Int} (h : Canonical m e) (h' : Canonical m' e') (he : e < e') :
      (m : ℚ) * 2 ^ e < m' * 2 ^ e' := by
    have hleast := h.least
    have hnormal : 2 ^ 52 ≤ m' := h'.normal.resolve_right (by omega)
    have hnormal : (2 : ℚ) ^ 52 ≤ m' := by exact_mod_cast hnormal
    calc
      (m : ℚ) * 2 ^ e < 2 ^ 52 * 2 ^ e' := zpow_lt_of_lt h.lt he
      _ ≤ m' * 2 ^ e' := by gcongr
  rcases lt_trichotomy e e' with he | rfl | he
  · rw [Int.compare_eq_lt.mpr he, compare_lt_iff_lt.mpr (hlt h h' he)]
    rfl
  · have hpos : (0 : ℚ) < 2 ^ e := zpow_pos two_pos e
    rw [Int.compare_eq_eq.mpr rfl]
    rcases lt_trichotomy m m' with hm | rfl | hm
    · have hcast : (m : ℚ) < m' := by exact_mod_cast hm
      rw [Nat.compare_eq_lt.mpr hm, compare_lt_iff_lt.mpr (by gcongr)]
      rfl
    · rw [Nat.compare_eq_eq.mpr rfl, compare_eq_iff_eq.mpr rfl]
      rfl
    · have hcast : (m' : ℚ) < m := by exact_mod_cast hm
      rw [Nat.compare_eq_gt.mpr hm, compare_gt_iff_gt.mpr (by gcongr)]
      rfl
  · rw [Int.compare_eq_gt.mpr he, compare_gt_iff_gt.mpr (hlt h' h he)]
    rfl

theorem compare_neg_neg (v w : ℚ) : compare (-v) (-w) = (compare v w).swap := by
  rcases lt_trichotomy v w with h | rfl | h
  · rw [compare_lt_iff_lt.mpr h, compare_gt_iff_gt.mpr (neg_lt_neg h)]
    rfl
  · rw [compare_eq_iff_eq.mpr rfl, compare_eq_iff_eq.mpr rfl]
    rfl
  · rw [compare_gt_iff_gt.mpr h, compare_lt_iff_lt.mpr (neg_lt_neg h)]
    rfl

theorem compare_value {x y : Float} {v w : ℚ} (hx : value? x.toModel.unpack = some v)
    (hy : value? y.toModel.unpack = some w) :
    x.toModel.unpack.compare y.toModel.unpack = some (compare v w) := by
  have hfin := @unpack_finite x
  have hfin' := @unpack_finite y
  generalize x.toModel.unpack = u at hx hfin
  generalize y.toModel.unpack = u' at hy hfin'
  have hpos {m : Nat} {e : Int} (hm : 0 < m) : (0 : ℚ) < m * 2 ^ e := by positivity
  cases u with
  | notANumber | infinity => cases hx
  | zero s =>
    cases hx
    cases u' with
    | notANumber | infinity => cases hy
    | zero s' =>
      cases hy
      rw [compare_eq_iff_eq.mpr rfl]
      rfl
    | finite s' m' e' hm' =>
      cases hy
      cases s' with
      | positive =>
        simp only [Sign.apply, Int.cast_natCast]
        rw [compare_lt_iff_lt.mpr (hpos hm')]
        rfl
      | negative =>
        simp only [Sign.apply, Int.cast_neg, Int.cast_natCast, neg_mul]
        rw [compare_gt_iff_gt.mpr (neg_lt_zero.mpr (hpos hm'))]
        rfl
  | finite s m e hm =>
    cases hx
    cases u' with
    | notANumber | infinity => cases hy
    | zero s' =>
      cases hy
      cases s with
      | positive =>
        simp only [Sign.apply, Int.cast_natCast]
        rw [compare_gt_iff_gt.mpr (hpos hm)]
        rfl
      | negative =>
        simp only [Sign.apply, Int.cast_neg, Int.cast_natCast, neg_mul]
        rw [compare_lt_iff_lt.mpr (neg_lt_zero.mpr (hpos hm))]
        rfl
    | finite s' m' e' hm' =>
      cases hy
      have hc := (hfin rfl).1.compare (hfin' rfl).1
      cases s <;> cases s' <;>
        simp only [Sign.apply, Int.cast_neg, Int.cast_natCast, neg_mul, UnpackedFloat.compare]
      · rw [hc, compare_neg_neg]
      · rw [compare_lt_iff_lt.mpr ((neg_lt_zero.mpr (hpos hm)).trans (hpos hm'))]
      · rw [compare_gt_iff_gt.mpr ((neg_lt_zero.mpr (hpos hm')).trans (hpos hm))]
      · rw [hc]

theorem le_of_isLE {v w : ℚ} (h : (compare v w).isLE = true) : v ≤ w := by
  rw [Ordering.isLE_iff_ne_gt, compare_gt_iff_gt] at h
  exact le_of_not_gt h

theorem lt_iff (x y : Float) : x < y ↔ x.toModel.unpack.lt y.toModel.unpack = true :=
  decide_eq_true_iff

theorem le_of_lt {x y : Float} (h : x < y) : x ≤ y := by
  rw [lt_iff, UnpackedFloat.lt, beq_iff_eq] at h
  rw [le_iff, UnpackedFloat.le, h]
  rfl

theorem atLeast_of_le {x y : Float} {v : ℚ} (hx : value? x.toModel.unpack = some v) (h : x ≤ y) :
    AtLeast v y.toModel.unpack := by
  rw [le_iff, UnpackedFloat.le] at h
  cases hy : value? y.toModel.unpack with
  | some w =>
    rw [compare_value hx hy] at h
    exact .inr ⟨w, hy, le_of_isLE h⟩
  | none =>
    generalize x.toModel.unpack = u at hx h
    generalize y.toModel.unpack = u' at hy h ⊢
    cases u' with
    | zero | finite => cases hy
    | notANumber => cases u <;> cases h
    | infinity s =>
      cases s with
      | positive => exact .inl rfl
      | negative =>
        cases u with
        | notANumber | infinity => cases hx
        | zero | finite => cases h

theorem unpack_abs (x : Float) :
    x.abs.toModel.unpack = (Float.Model.pack x.toModel.unpack.abs).unpack :=
  rfl

theorem abs_value {x : Float} {v : ℚ} (hx : value? x.toModel.unpack = some v) :
    value? x.abs.toModel.unpack = some |v| := by
  have hfin := @unpack_finite x
  rw [unpack_abs]
  generalize x.toModel.unpack = u at hx hfin
  cases u with
  | notANumber | infinity => cases hx
  | zero s =>
    cases hx
    simp only [UnpackedFloat.abs, abs_zero]
    rfl
  | finite s m e hm =>
    obtain ⟨hc, he⟩ := hfin rfl
    have hnonneg : (0 : ℚ) ≤ m * 2 ^ e := by positivity
    cases hx
    rw [UnpackedFloat.abs, unpack_pack_canonical hc he]
    cases s with
    | positive =>
      simp only [value?, Sign.apply, Int.cast_natCast]
      rw [abs_of_nonneg hnonneg]
    | negative =>
      simp only [value?, Sign.apply, Int.cast_neg, Int.cast_natCast, neg_mul]
      rw [abs_neg, abs_of_nonneg hnonneg]

theorem exists_abs_le {x y : Float} {w : ℚ} (hy : value? y.toModel.unpack = some w)
    (h : x.abs ≤ y) : ∃ v, value? x.toModel.unpack = some v ∧ |v| ≤ w := by
  rw [le_iff, UnpackedFloat.le] at h
  cases hx : value? x.toModel.unpack with
  | some v =>
    rw [compare_value (abs_value hx) hy] at h
    exact ⟨v, rfl, le_of_isLE h⟩
  | none =>
    rw [unpack_abs] at h
    generalize x.toModel.unpack = u at hx h
    generalize y.toModel.unpack = u' at hy h
    cases u with
    | zero | finite => cases hx
    | notANumber => cases h
    | infinity s =>
      have hinf : (Float.Model.pack (UnpackedFloat.infinity s).abs).unpack =
        .infinity .positive := unpack_pack_infinity .positive
      rw [hinf] at h
      cases u' with
      | notANumber | infinity => cases hy
      | zero | finite => cases h

theorem exists_abs_lt {x y : Float} {w : ℚ} (hy : value? y.toModel.unpack = some w)
    (h : x.abs < y) : ∃ v, value? x.toModel.unpack = some v ∧ |v| < w := by
  obtain ⟨v, hx, -⟩ := exists_abs_le hy (le_of_lt h)
  rw [lt_iff, UnpackedFloat.lt, beq_iff_eq, compare_value (abs_value hx) hy] at h
  exact ⟨v, hx, compare_lt_iff_lt.mp (Option.some.inj h)⟩

theorem atLeast_max {x bound : Float} {v : ℚ} (h : value? bound.toModel.unpack = some v) :
    AtLeast v (Number.atLeast x bound).toModel.unpack := by
  unfold Number.atLeast
  split
  · rename_i hlt
    exact atLeast_of_le h (le_of_lt hlt)
  · exact .inr ⟨v, h, le_rfl⟩

end BlockScript.Number

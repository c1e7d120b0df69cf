import BlockScript.Proofs.Number.Distance

/-! How far a rounded sum or difference is from the exact one. Whole numbers below `2 ^ 53` are not
rounded, so up to there a rounded sum is at most one away from the exact sum, and a difference that
is below a bound is so before rounding as well. Numbers that are equal as numbers are the same but
for the sign of zero, which a distance does not see. -/

namespace BlockScript.Number

open Float.Model (UnpackedFloat)
open Float.Model.UnpackedFloat

theorem hasBits_of_value {x : Float} {v : ℚ} (hx : value? x.toModel.unpack = some v) :
    HasBits v := by
  have hfin := @unpack_finite x
  generalize x.toModel.unpack = u at hx hfin
  cases u with
  | notANumber | infinity => cases hx
  | zero s =>
    cases hx
    exact hasBits_zero
  | finite s m e hm =>
    cases hx
    obtain ⟨hc, he⟩ := hfin rfl
    refine ⟨m, e, hc.lt, hc.least, he, ?_⟩
    have hnonneg : (0 : ℚ) ≤ m * 2 ^ e := by positivity
    cases s with
    | positive => simp only [Sign.apply, Int.cast_natCast, abs_of_nonneg hnonneg]
    | negative =>
      simp only [Sign.apply, Int.cast_neg, Int.cast_natCast, neg_mul, abs_neg,
        abs_of_nonneg hnonneg]

theorem hasBits_int {k : ℤ} (hk : |(k : ℚ)| < 2 ^ 53) : HasBits k := by
  have habs : ((k.natAbs : Nat) : ℚ) = |(k : ℚ)| := by rw [Nat.cast_natAbs, Int.cast_abs]
  refine ⟨k.natAbs, 0, ?_, by omega, by omega, by rw [habs, zpow_zero, mul_one]⟩
  rw [← habs] at hk
  exact_mod_cast hk

theorem exists_value_between {p q : ℚ} {u : UnpackedFloat} (hp : AtLeast p u) (hq : AtMost q u) :
    ∃ r, value? u = some r ∧ p ≤ r ∧ r ≤ q := by
  rcases hp with rfl | ⟨r, hr, hle⟩
  · rcases hq with hq | ⟨r, hr, -⟩
    · cases hq
    · cases hr
  · rcases hq with rfl | ⟨r', hr', hge⟩
    · cases hr
    · cases hr.symm.trans hr'
      exact ⟨r, hr, hle, hge⟩

theorem lt_of_atLeast {x y : Float} {v q : ℚ} (hx : value? x.toModel.unpack = some v)
    (hy : AtLeast q y.toModel.unpack) (h : v < q) : x < y := by
  rcases hy with hy | ⟨w, hw, hle⟩
  · have hrank : rank? y.toModel.unpack = some ⊤ := by rw [hy]; rfl
    rw [lt_iff_rank (rank_coe_of_value hx) hrank]
    exact lt_top_iff_ne_top.mpr (WithBotTop.coe_ne_top v)
  · rw [lt_iff_value hx hw]
    linarith

/-- A sum that is not too large is at most one off. -/
theorem add_close {x y : Float} {v w : ℚ} (hx : value? x.toModel.unpack = some v)
    (hy : value? y.toModel.unpack = some w) (h : |v + w| < 2 ^ 53 - 1) :
    ∃ r, value? (x + y).toModel.unpack = some r ∧ |r - (v + w)| ≤ 1 := by
  obtain ⟨hlow, hhigh⟩ := abs_lt.mp h
  have hfloor := Int.floor_le (v + w)
  have hfloor' := Int.lt_floor_add_one (v + w)
  have hceil := Int.le_ceil (v + w)
  have hceil' := Int.ceil_lt_add_one (v + w)
  have hround := add_rounds hx hy
  have hleast : AtLeast ⌊v + w⌋ (x + y).toModel.unpack :=
    (hround _ (hasBits_int (abs_lt.mpr ⟨by linarith, by linarith⟩))).1 hfloor
  have hmost : AtMost ⌈v + w⌉ (x + y).toModel.unpack :=
    (hround _ (hasBits_int (abs_lt.mpr ⟨by linarith, by linarith⟩))).2 hceil
  obtain ⟨r, hr, hle, hge⟩ := exists_value_between hleast hmost
  exact ⟨r, hr, abs_le.mpr ⟨by linarith, by linarith⟩⟩

/-- The number `x` is the whole number `k`, which is at most `n`. -/
structure IsWhole (x : Float) (k n : ℤ) : Prop where
  value : value? x.toModel.unpack = some (k : ℚ)
  le : |k| ≤ n

theorem IsWhole.add {x y : Float} {j k m n : ℤ} (hx : IsWhole x j m) (hy : IsWhole y k n)
    (h : m + n < 2 ^ 53) : IsWhole (x + y) (j + k) (m + n) := by
  have hle : |j + k| ≤ m + n := (abs_add_le j k).trans (add_le_add hx.le hy.le)
  have hround := add_rounds hx.value hy.value
  rw [← Int.cast_add] at hround
  exact ⟨hround.eq (hasBits_int (by exact_mod_cast hle.trans_lt h)), hle⟩

theorem IsWhole.sub {x y : Float} {j k m n : ℤ} (hx : IsWhole x j m) (hy : IsWhole y k n)
    (h : m + n < 2 ^ 53) : IsWhole (x - y) (j - k) (m + n) := by
  have hle : |j - k| ≤ m + n := (abs_sub j k).trans (add_le_add hx.le hy.le)
  have hround := sub_rounds hx.value hy.value
  rw [← Int.cast_sub] at hround
  exact ⟨hround.eq (hasBits_int (by exact_mod_cast hle.trans_lt h)), hle⟩

theorem IsWhole.beq {x y : Float} {j k m n : ℤ} (hx : IsWhole x j m) (hy : IsWhole y k n)
    (h : j = k) : (x == y) = true :=
  (beq_iff_value hx.value hy.value).mpr (congrArg _ h)

theorem abs_le_of_value {x y : Float} {v w : ℚ} (hx : value? x.toModel.unpack = some v)
    (hy : value? y.toModel.unpack = some w) : x.abs ≤ y ↔ |v| ≤ w := by
  rw [le_iff_rank (rank_coe_of_value (abs_value hx)) (rank_coe_of_value hy)]
  exact WithBotTop.coe_strictMono.le_iff_le

/-- Rounding does not bring a difference below a bound. -/
theorem abs_sub_lt {x y t : Float} {v w r : ℚ} (hx : value? x.toModel.unpack = some v)
    (hy : value? y.toModel.unpack = some w) (ht : value? t.toModel.unpack = some r)
    (h : (x - y).abs < t) : |v - w| < r := by
  obtain ⟨d, hd, hlt⟩ := exists_abs_lt ht h
  obtain ⟨hlow, hhigh⟩ := abs_lt.mp hlt
  have hround := sub_rounds hx hy
  have hbits := hasBits_of_value ht
  have hleast : AtLeast d (x - y).toModel.unpack := .inr ⟨d, hd, le_rfl⟩
  by_contra hge
  rcases le_abs'.mp (not_lt.mp hge) with hge | hge
  · exact hleast.not_atMost hlow ((hround _ hbits.neg).2 hge)
  · have hfar : AtLeast r (x - y).toModel.unpack := (hround _ hbits).1 hge
    exact hfar.not_atMost hhigh (.inr ⟨d, hd, le_rfl⟩)

/-- From 10 upwards a number loses no bits when 20 is taken from it. -/
theorem HasBits.sub_twenty {v : ℚ} (h : HasBits v) (hlow : 10 ≤ v) (hhigh : v < 2 ^ 53) :
    HasBits (v - 20) := by
  obtain ⟨a, g, ha, hg, -, hv⟩ := h
  rw [abs_of_nonneg (by linarith)] at hv
  -- Below `2 ^ 53` the exponent need not be positive.
  obtain ⟨b, k, hb, hk, hv⟩ : ∃ (b k : Nat), b < 2 ^ 53 ∧ k ≤ 1074 ∧ v * 2 ^ k = b := by
    rcases le_or_gt g 0 with hneg | hpos
    · obtain ⟨k, rfl⟩ := Int.exists_eq_neg_ofNat hneg
      refine ⟨a, k, ha, by omega, ?_⟩
      rw [hv, zpow_neg, zpow_natCast, mul_assoc, inv_mul_cancel₀ (by positivity), mul_one]
    · obtain ⟨k, rfl⟩ := Int.eq_ofNat_of_zero_le hpos.le
      refine ⟨a * 2 ^ k, 0, ?_, by omega, ?_⟩
      · rw [hv, zpow_natCast] at hhigh
        exact_mod_cast hhigh
      · rw [hv, pow_zero, mul_one, zpow_natCast]
        push_cast
        ring
  have hpos : (0 : ℚ) < 2 ^ k := by positivity
  have hle : 20 * 2 ^ k ≤ 2 * b := by
    have : (20 : ℚ) * 2 ^ k ≤ 2 * b := by
      rw [← hv]
      nlinarith
    exact_mod_cast this
  have hcast : ((((b : ℤ) - 20 * 2 ^ k).natAbs : Nat) : ℚ) = |(b : ℚ) - 20 * 2 ^ k| := by
    rw [Nat.cast_natAbs, Int.cast_abs]
    push_cast
    rfl
  refine ⟨((b : ℤ) - 20 * 2 ^ k).natAbs, -k, ?_, by omega, by omega, ?_⟩
  · have hnat : ((2 ^ k : Nat) : ℤ) = 2 ^ k := by push_cast; rfl
    have hone := Nat.two_pow_pos k
    omega
  · rw [hcast, ← hv, ← sub_mul, abs_mul, abs_of_pos hpos, zpow_neg, zpow_natCast, mul_assoc,
      mul_inv_cancel₀ hpos.ne', mul_one]

theorem eq_of_unpack {x y : Float} (h : x.toModel.unpack = y.toModel.unpack) : x = y := by
  have hmodel : x.toModel = y.toModel := by
    rw [← pack_unpack x.toModel, h, pack_unpack]
  cases x
  cases y
  cases hmodel
  rfl

theorem eq_or_zeros_of_beq {x y : Float} (h : (x == y) = true) :
    x = y ∨ (∃ s, x.toModel.unpack = .zero s) ∧ ∃ s, y.toModel.unpack = .zero s := by
  change x.toModel.unpack.beq y.toModel.unpack = true at h
  rw [UnpackedFloat.beq, beq_iff_eq] at h
  by_cases heq : x.toModel.unpack = y.toModel.unpack
  · exact .inl (eq_of_unpack heq)
  · right
    generalize x.toModel.unpack = u at h heq
    generalize y.toModel.unpack = u' at h heq
    cases u with
    | notANumber => cases h
    | infinity s =>
      cases u' with
      | infinity s' => cases s <;> cases s' <;> first | exact absurd rfl heq | cases h
      | notANumber | zero | finite => cases s <;> cases h
    | zero s =>
      cases u' with
      | zero s' => exact ⟨⟨s, rfl⟩, s', rfl⟩
      | infinity s' | finite s' => cases s' <;> cases h
      | notANumber => cases h
    | finite s m e hm =>
      cases u' with
      | finite s' m' e' hm' =>
        cases s <;> cases s' <;>
          simp only [UnpackedFloat.compare, Option.some.injEq, Ordering.swap_eq_eq,
            Ordering.then_eq_eq, Int.compare_eq_eq, Nat.compare_eq_eq, reduceCtorEq] at h
        · exact absurd (finite_congr h.2 h.1) heq
        · exact absurd (finite_congr h.2 h.1) heq
      | infinity s' => cases s' <;> cases h
      | zero s' => cases s <;> cases h
      | notANumber => cases h

theorem abs_congr {x y : Float} (h : (x == y) = true) : x.abs = y.abs := by
  rcases eq_or_zeros_of_beq h with rfl | ⟨⟨s, hs⟩, s', hs'⟩
  · rfl
  · apply eq_of_unpack
    rw [unpack_abs, unpack_abs, hs, hs']
    rfl

theorem hypot_congr {x y x' y' : Float} (hx : (x == x') = true) (hy : (y == y') = true) :
    hypot x y = hypot x' y' := by
  have habs := abs_congr hx
  have habs' := abs_congr hy
  unfold hypot
  rcases eq_or_zeros_of_beq hx with rfl | ⟨⟨s, hs⟩, s', hs'⟩
  · rcases eq_or_zeros_of_beq hy with rfl | ⟨⟨t, ht⟩, t', ht'⟩
    · rfl
    · rw [ht, ht']
      cases x.toModel.unpack with
      | zero => exact habs'
      | notANumber | infinity | finite => rfl
  · rw [hs, hs']
    rcases eq_or_zeros_of_beq hy with rfl | ⟨⟨t, ht⟩, t', ht'⟩
    · cases y.toModel.unpack <;> rfl
    · rw [ht, ht']
      exact habs'

end BlockScript.Number

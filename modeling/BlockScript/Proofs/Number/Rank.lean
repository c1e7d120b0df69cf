import BlockScript.Number.Distance
import BlockScript.Proofs.Number.Order

/-! The order of the numbers. Every number but NaN has a rank among the rationals and the two
infinities, and two such numbers compare as their ranks do. A distance along finite legs has a
rank. -/

namespace BlockScript.Number

open Float.Model (UnpackedFloat)
open Float.Model.UnpackedFloat

def rank? : UnpackedFloat → Option (WithBotTop ℚ)
  | .notANumber => none
  | .infinity .negative => some ⊥
  | .infinity .positive => some ⊤
  | u => (value? u).map WithBotTop.coe

theorem rank_cases {u : UnpackedFloat} {p : WithBotTop ℚ} (h : rank? u = some p) :
    u = .infinity .negative ∧ p = ⊥ ∨ u = .infinity .positive ∧ p = ⊤ ∨
      ∃ v, value? u = some v ∧ p = WithBotTop.coe v := by
  cases u with
  | notANumber => cases h
  | infinity s =>
    cases s with
    | negative =>
      cases h
      exact .inl ⟨rfl, rfl⟩
    | positive =>
      cases h
      exact .inr (.inl ⟨rfl, rfl⟩)
  | zero s =>
    cases h
    exact .inr (.inr ⟨0, rfl, rfl⟩)
  | finite s m e hm =>
    cases h
    exact .inr (.inr ⟨_, rfl, rfl⟩)

theorem compare_coe (v w : ℚ) : compare (WithBotTop.coe v) (WithBotTop.coe w) = compare v w := by
  rw [← cmp_eq_compare, ← cmp_eq_compare]
  exact WithBotTop.coe_strictMono.cmp_map_eq v w

/-- An infinity stands on its side of every finite number. -/
theorem compare_infinity {u : UnpackedFloat} {v : ℚ} (h : value? u = some v) :
    (UnpackedFloat.infinity .negative).compare u = some .lt ∧
    (UnpackedFloat.infinity .positive).compare u = some .gt ∧
    u.compare (.infinity .negative) = some .gt ∧ u.compare (.infinity .positive) = some .lt := by
  cases u with
  | notANumber | infinity => cases h
  | zero | finite => exact ⟨rfl, rfl, rfl, rfl⟩

theorem compare_rank {x y : Float} {p q : WithBotTop ℚ} (hx : rank? x.toModel.unpack = some p)
    (hy : rank? y.toModel.unpack = some q) :
    x.toModel.unpack.compare y.toModel.unpack = some (compare p q) := by
  have hbot (v : ℚ) : (⊥ : WithBotTop ℚ) < WithBotTop.coe v := WithBot.bot_lt_coe _
  have htop (v : ℚ) : WithBotTop.coe v < (⊤ : WithBotTop ℚ) :=
    lt_top_iff_ne_top.mpr (WithBotTop.coe_ne_top v)
  rcases rank_cases hx with ⟨hu, rfl⟩ | ⟨hu, rfl⟩ | ⟨v, hv, rfl⟩ <;>
    rcases rank_cases hy with ⟨hu', rfl⟩ | ⟨hu', rfl⟩ | ⟨w, hw, rfl⟩
  · rw [hu, hu', compare_eq_iff_eq.mpr rfl]
    rfl
  · rw [hu, hu', compare_lt_iff_lt.mpr bot_lt_top]
    rfl
  · rw [hu, (compare_infinity hw).1, compare_lt_iff_lt.mpr (hbot w)]
  · rw [hu, hu', compare_gt_iff_gt.mpr bot_lt_top]
    rfl
  · rw [hu, hu', compare_eq_iff_eq.mpr rfl]
    rfl
  · rw [hu, (compare_infinity hw).2.1, compare_gt_iff_gt.mpr (htop w)]
  · rw [hu', (compare_infinity hv).2.2.1, compare_gt_iff_gt.mpr (hbot v)]
  · rw [hu', (compare_infinity hv).2.2.2, compare_lt_iff_lt.mpr (htop v)]
  · rw [compare_value hv hw, compare_coe]

theorem le_iff_rank {x y : Float} {p q : WithBotTop ℚ} (hx : rank? x.toModel.unpack = some p)
    (hy : rank? y.toModel.unpack = some q) : x ≤ y ↔ p ≤ q := by
  rw [le_iff, UnpackedFloat.le, compare_rank hx hy, Option.any_some, Ordering.isLE_iff_ne_gt,
    compare_gt_iff_gt, not_lt]

theorem lt_iff_rank {x y : Float} {p q : WithBotTop ℚ} (hx : rank? x.toModel.unpack = some p)
    (hy : rank? y.toModel.unpack = some q) : x < y ↔ p < q := by
  rw [lt_iff, UnpackedFloat.lt, compare_rank hx hy, beq_iff_eq, Option.some.injEq,
    compare_lt_iff_lt]

theorem beq_iff_rank {x y : Float} {p q : WithBotTop ℚ} (hx : rank? x.toModel.unpack = some p)
    (hy : rank? y.toModel.unpack = some q) : (x == y) = true ↔ p = q := by
  change x.toModel.unpack.beq y.toModel.unpack = true ↔ p = q
  rw [UnpackedFloat.beq, compare_rank hx hy, beq_iff_eq, Option.some.injEq, compare_eq_iff_eq]

theorem rank_of_notNegative {u : UnpackedFloat} (h : NotNegative u) : ∃ p, rank? u = some p := by
  cases h with
  | zero | infinity | finite => exact ⟨_, rfl⟩

theorem rank_of_value {u : UnpackedFloat} {v : ℚ} (h : value? u = some v) :
    ∃ p, rank? u = some p := by
  cases u with
  | notANumber | infinity => cases h
  | zero | finite => exact ⟨_, rfl⟩

theorem rootOfDyadic_notNegative (m : Nat) (e : Int) :
    NotNegative (rootOfDyadic m e).toModel.unpack := by
  unfold rootOfDyadic
  split
  · simp only [UnpackedFloat.sqrt, roundWithAccuracy]
    split
    · exact .zero .positive
    · exact unpack_pack_positive _ _ _
  · exact .zero .positive

theorem hypot_rank {x y : Float} {v w : ℚ} (hx : value? x.toModel.unpack = some v)
    (hy : value? y.toModel.unpack = some w) : ∃ p, rank? (hypot x y).toModel.unpack = some p := by
  have habs := rank_of_value (abs_value hx)
  have habs' := rank_of_value (abs_value hy)
  unfold hypot
  generalize x.toModel.unpack = u at hx
  generalize y.toModel.unpack = u' at hy
  cases u with
  | notANumber | infinity => cases hx
  | zero s =>
    cases u' with
    | notANumber | infinity => cases hy
    | zero | finite => exact habs'
  | finite s m e hm =>
    cases u' with
    | notANumber | infinity => cases hy
    | zero => exact habs
    | finite => exact rank_of_notNegative (rootOfDyadic_notNegative _ _)

end BlockScript.Number

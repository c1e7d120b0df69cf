import BlockScript.Number.Decimal
import BlockScript.Proofs.Number.Nearest

/-! Decimal literals. A literal with at most six decimals is read as the number nearest to it,
provided that it is not past all numbers. -/

namespace BlockScript.Number

open Float.Model (UnpackedFloat)
open Float.Model.UnpackedFloat

theorem toFloat_value {n : Nat} (hn : n < 2 ^ 53) :
    value? n.toUInt64.toFloat.toModel.unpack = some (n : ℚ) := by
  have hword : n.toUInt64.toNat = n := by
    rw [Nat.toUInt64, UInt64.toNat_ofNat']
    omega
  have hunpack : n.toUInt64.toFloat.toModel.unpack =
      (Float.Model.pack (UnpackedFloat.normalize .binary64 n.toUInt64.toNat 0 .positive)).unpack :=
    rfl
  have hround := normalize_rounds n 0
  rw [hunpack, hword]
  rw [zpow_zero, mul_one] at hround
  apply hround.eq
  apply hasBits_int
  rw [Int.cast_natCast, Nat.abs_cast]
  exact_mod_cast hn

theorem powersOfTen_get? : ∀ k : Fin 7, Float.exactlyRepresentablePowersOfTen[k.val]? =
    some (10 ^ k.val).toUInt64.toFloat := by
  decide +kernel

theorem div_near_of_value {x y : Float} {v w q : ℚ} (hx : value? x.toModel.unpack = some v)
    (hy : value? y.toModel.unpack = some w) (hv : 0 < v) (hw : 0 < w) (hq : HasBits q)
    (hle : v / w ≤ q) : Near (v / w) (x / y).toModel.unpack := by
  have hunpack : (x / y).toModel.unpack = (Float.Model.pack
      (UnpackedFloat.div .binary64 x.toModel.unpack y.toModel.unpack)).unpack := rfl
  obtain ⟨m, e, hm, hxu, rfl⟩ := exists_finite_of_pos hx hv
  obtain ⟨n, f, hn, hyu, rfl⟩ := exists_finite_of_pos hy hw
  rw [hunpack, hxu, hyu]
  exact div_near hm hn hq hle

theorem mul_one_near {x : Float} {v : ℚ} (hx : value? x.toModel.unpack = some v) (hv : 0 < v) :
    Near v (x * 1).toModel.unpack := by
  have hunpack : (x * 1).toModel.unpack = (Float.Model.pack
      (UnpackedFloat.mul .binary64 x.toModel.unpack (.finite .positive (2 ^ 52) (-52)
        (by decide)))).unpack := rfl
  have hbits := hasBits_of_value hx
  obtain ⟨m, e, hm, hxu, rfl⟩ := exists_finite_of_pos hx hv
  have hc := (unpack_finite hxu).1
  have hone : (m : ℚ) * 2 ^ e * ((2 ^ 52 : Nat) * 2 ^ (-52 : Int)) = m * 2 ^ e := by
    norm_num
  have htarget : e + -52 ≤ target (m * 2 ^ 52) (e + -52) := by
    have hshift := target_shifted hm e 52
    rw [← targetExponent_eq m, hc.target hm] at hshift
    exact hshift.symm ▸ by omega
  rw [hunpack, hxu]
  have hnear := mul_near hm (by decide : 0 < 2 ^ 52) htarget hbits hone.le
  rwa [hone] at hnear

theorem HasBits.lt {q : ℚ} (h : HasBits q) : |q| < 2 ^ 1024 := by
  have hc : Canonical (2 ^ 52) 972 := ⟨by norm_num, by omega, .inl le_rfl⟩
  have hlt := h.lt_overflow hc (by omega)
  have hpow : ((2 ^ 52 : Nat) : ℚ) * 2 ^ (972 : Int) = 2 ^ 1024 := by
    rw [show (972 : Int) = ((972 : Nat) : Int) from rfl, zpow_natCast, Nat.cast_pow, Nat.cast_ofNat,
      ← pow_add]
  rwa [hpow] at hlt

theorem length_toDigits_le {u k : Nat} {q : ℚ} (hq : HasBits q) (hle : (u : ℚ) / 10 ^ k ≤ q) :
    (Nat.toDigits 10 u).length ≤ 309 + k := by
  rw [Nat.length_toDigits_le_iff (by omega) (by omega), pow_add]
  have hpos : (0 : ℚ) < 10 ^ k := by positivity
  have hlarge : (2 : ℚ) ^ 1024 ≤ 10 ^ 309 := calc
    (2 : ℚ) ^ 1024 = (2 ^ 93) ^ 11 * 2 := by rw [← pow_mul, ← pow_succ]
    _ ≤ (10 ^ 28) ^ 11 * 10 := by gcongr <;> norm_num
    _ = 10 ^ 309 := by rw [← pow_mul, ← pow_succ]
  have hlt : (u : ℚ) / 10 ^ k < 10 ^ 309 :=
    hle.trans_lt (((le_abs_self q).trans_lt hq.lt).trans_le hlarge)
  rw [div_lt_iff₀ hpos] at hlt
  exact_mod_cast hlt

/-- A large mantissa is scaled in one division or product. -/
theorem ofScientific_near {u k : Nat} (hu : 2 ^ 53 ≤ u) (hk : k ≤ 6) {q : ℚ} (hq : HasBits q)
    (hle : u / 10 ^ k ≤ q) :
    Near (u / 10 ^ k) (Float.Model.ofScientific u (-k)).unpack := by
  change Near _ (Float.Model.pack (UnpackedFloat.ofScientific .binary64 u (-k))).unpack
  have hbits : ((2 : Int) ^ Float.Model.Format.binary64.exponentBits) = 2048 := rfl
  have hupos : 0 < u := by omega
  rw [UnpackedFloat.ofScientific, dif_neg hupos.ne', hbits, if_neg (by omega), if_neg (by omega)]
  by_cases hk0 : k = 0
  · subst hk0
    rw [if_pos (by omega)]
    have hvalue : ((u <<< 53 : Nat) : ℚ) * 2 ^ (-53 : Int) * ((10 ^ 0 : Nat) * 2 ^ (0 : Int)) =
        u / 10 ^ 0 := by
      rw [Nat.shiftLeft_eq]
      push_cast
      norm_num
      ring
    have htarget : -53 + 0 ≤ target (u <<< 53 * 10 ^ 0) (-53 + 0) := by
      have hlarge : 2 ^ 53 ≤ u <<< 53 * 10 ^ 0 := by
        rw [Nat.shiftLeft_eq]
        omega
      have hlog := (Nat.le_log2 (by omega)).mpr hlarge
      unfold target
      omega
    rw [← hvalue] at hle ⊢
    exact mul_near _ _ htarget hq hle
  · rw [if_neg (by omega)]
    have hvalue : (u : ℚ) * 2 ^ (0 : Int) / ((10 ^ (- -(k : Int)).toNat : Nat) * 2 ^ (0 : Int)) =
        u / 10 ^ k := by
      rw [neg_neg, Int.toNat_natCast]
      push_cast
      norm_num
    rw [← hvalue] at hle ⊢
    exact div_near _ _ hq hle

theorem ofDecimal_near {u k : Nat} (hk : k ≤ 6) {q : ℚ} (hq : HasBits q) (hle : u / 10 ^ k ≤ q) :
    Near (u / 10 ^ k) (ofDecimal u (-k)).toModel.unpack := by
  have hlength := length_toDigits_le hq hle
  rw [ofDecimal]
  by_cases hu : u = 0
  · rw [if_pos hu, hu, Nat.cast_zero, zero_div]
    exact ⟨0, rfl, fun p _ => by simp⟩
  · have hpos : 0 < (Nat.toDigits 10 u).length := Nat.length_toDigits_pos
    have hupos : (0 : ℚ) < u := by exact_mod_cast Nat.pos_of_ne_zero hu
    rw [if_neg hu, if_neg (by omega), if_neg (by omega), Float.ofScientific]
    by_cases hsmall : u < 2 ^ 53
    · rw [dif_pos ⟨hsmall, by omega⟩]
      have hx := toFloat_value hsmall
      by_cases hk0 : k = 0
      · subst hk0
        have hone := mul_one_near hx hupos
        rw [pow_zero, div_one]
        exact hone
      · rw [if_pos (decide_eq_true (by omega))]
        simp only [Int.natAbs_neg, Int.natAbs_natCast]
        have hten : 10 ^ k < 2 ^ 53 :=
          (Nat.pow_le_pow_right (by omega) hk).trans_lt (by norm_num : 10 ^ 6 < 2 ^ 53)
        have hy := toFloat_value hten
        obtain ⟨_, hpower⟩ := Array.getElem?_eq_some_iff.mp (powersOfTen_get? ⟨k, by omega⟩)
        rw [← hpower, Nat.cast_pow, Nat.cast_ofNat] at hy
        exact div_near_of_value hx hy hupos (by positivity) hq hle
    · rw [dif_neg fun h => hsmall h.1]
      have hexponent : (if decide (-(k : Int) < 0) = true then Int.negOfNat (-(k : Int)).natAbs
          else Int.ofNat (-(k : Int)).natAbs) = -k := by
        rw [Int.natAbs_neg, Int.natAbs_natCast]
        split
        · rw [Int.negOfNat_eq]
          rfl
        · rename_i h
          have hk0 : k = 0 := by simpa using h
          rw [hk0]
          rfl
      rw [hexponent]
      exact ofScientific_near (by omega) hk hq hle

end BlockScript.Number

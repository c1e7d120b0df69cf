import BlockScript.Proofs.Number.Grammar

/-! The digits of a number that is shown. Without its trailing zeros the text of a multiple of
`10 ^ -6` is still a numeral, and it is read as the same multiple. -/

namespace BlockScript.Number

open Float.Model.UnpackedFloat (Sign)

theorem dropTrailing_eq (c : Char) (cs : List Char) :
    dropTrailing c cs = cs.rdropWhile (· == c) :=
  rfl

theorem dropTrailing_append (c : Char) (cs ds : List Char) : dropTrailing c (cs ++ ds) =
    if dropTrailing c ds = [] then dropTrailing c cs else cs ++ dropTrailing c ds := by
  have hds : dropTrailing c ds = (ds.reverse.dropWhile (· == c)).reverse := rfl
  rw [dropTrailing, List.reverse_append, List.dropWhile_append]
  by_cases h : ds.reverse.dropWhile (· == c) = []
  · rw [if_pos (List.isEmpty_iff.mpr h), if_pos (by rw [hds, h, List.reverse_nil]), dropTrailing]
  · have hne : dropTrailing c ds ≠ [] := fun h' => h (List.reverse_eq_nil_iff.mp h')
    rw [if_neg fun h' => h (List.isEmpty_iff.mp h'), if_neg hne, List.reverse_append,
      List.reverse_reverse, hds]

theorem dropTrailing_of_not_mem {c : Char} {cs : List Char} (h : c ∉ cs) :
    dropTrailing c cs = cs := by
  rw [dropTrailing_eq, List.rdropWhile_eq_self_iff]
  intro hne hlast
  rw [beq_iff_eq] at hlast
  exact h (hlast ▸ List.getLast_mem hne)

theorem Digits.not_mem_point {cs : List Char} (h : Digits cs) : '.' ∉ cs :=
  fun hmem => absurd (h '.' hmem) (by decide)

theorem digits_toDigits (n : Nat) : Digits (Nat.toDigits 10 n) :=
  fun _ => Nat.isDigit_of_mem_toDigits (by omega) (by omega)

theorem readDigits_append (cs ds : List Char) :
    readDigits (cs ++ ds) = readDigits cs * 10 ^ ds.length + readDigits ds := by
  rw [mul_comm]
  exact (Nat.ofDigitChars_append 0).trans Nat.ofDigitChars_eq_ofDigitChars_zero

theorem readDigits_toDigits (n : Nat) : readDigits (Nat.toDigits 10 n) = n :=
  Nat.ofDigitChars_ten_toDigits

theorem readDigits_replicate (n : Nat) : readDigits (List.replicate n '0') = 0 :=
  Nat.ofDigitChars_replicate_zero.trans (Nat.mul_zero _)

theorem digits_replicate (n : Nat) : Digits (List.replicate n '0') := by
  intro c hc
  rw [List.eq_of_mem_replicate hc]
  rfl

theorem digits_paddedDigits (width n : Nat) : Digits (paddedDigits width n) :=
  List.forall_mem_append.mpr ⟨digits_replicate _, digits_toDigits n⟩

theorem readDigits_paddedDigits (width n : Nat) : readDigits (paddedDigits width n) = n := by
  rw [paddedDigits, readDigits_append, readDigits_replicate, readDigits_toDigits, Nat.zero_mul,
    Nat.zero_add]

theorem length_paddedDigits {width n : Nat} (hw : 0 < width) (h : n < 10 ^ width) :
    (paddedDigits width n).length = width := by
  have hlength := (Nat.length_toDigits_le_iff (by omega) hw).mpr h
  rw [paddedDigits, List.length_append, List.length_replicate]
  omega

/-- The digits after the point of `u` units of `10 ^ -6`. -/
def fraction (u : Nat) : List Char :=
  dropTrailing '0' (paddedDigits 6 (u % 10 ^ 6))

theorem fraction_append (u : Nat) : ∃ k, (fraction u).length + k = 6 ∧
    fraction u ++ List.replicate k '0' = paddedDigits 6 (u % 10 ^ 6) := by
  have hsplit := List.rdropWhile_append_rtakeWhile (p := (· == '0'))
    (l := paddedDigits 6 (u % 10 ^ 6))
  generalize hk : (paddedDigits 6 (u % 10 ^ 6)).rtakeWhile (· == '0') = zeros at hsplit
  have hzeros : zeros = List.replicate zeros.length '0' := by
    refine List.eq_replicate_of_mem fun c hc => ?_
    rw [← hk] at hc
    simpa using List.mem_rtakeWhile_imp hc
  refine ⟨zeros.length, ?_, hzeros ▸ hsplit⟩
  have hlength := congrArg List.length hsplit
  rwa [length_paddedDigits (by omega) (Nat.mod_lt _ (by norm_num)), List.length_append] at hlength

theorem digits_fraction (u : Nat) : Digits (fraction u) :=
  fun c hc => digits_paddedDigits 6 _ c ((List.rdropWhile_prefix _ _).subset hc)

/-- The digits before and after the point, read together. -/
theorem readDigits_fraction (u : Nat) : ∃ k, (fraction u).length + k = 6 ∧
    readDigits (Nat.toDigits 10 (u / 10 ^ 6) ++ fraction u) * 10 ^ k = u := by
  obtain ⟨k, hk, happend⟩ := fraction_append u
  refine ⟨k, hk, ?_⟩
  have hdigits := readDigits_append (fraction u) (List.replicate k '0')
  rw [happend, readDigits_paddedDigits, readDigits_replicate, List.length_replicate,
    Nat.add_zero] at hdigits
  calc
    readDigits (Nat.toDigits 10 (u / 10 ^ 6) ++ fraction u) * 10 ^ k
    _ = u / 10 ^ 6 * 10 ^ ((fraction u).length + k) + readDigits (fraction u) * 10 ^ k := by
      rw [readDigits_append, readDigits_toDigits, add_mul, mul_assoc, ← pow_add]
    _ = u := by
      rw [hk, ← hdigits]
      exact Nat.div_add_mod' u (10 ^ 6)

/-- A point and digits, or nothing if there are no digits. -/
def pointTail (digits : List Char) : List Char :=
  if digits = [] then [] else '.' :: digits

/-- The text of `u` units of `10 ^ -6`. -/
def shown (s : Sign) (u : Nat) : List Char :=
  signMark s ++ (Nat.toDigits 10 (u / 10 ^ 6) ++ pointTail (fraction u))

theorem dropTrailing_pointed (s : Sign) (u : Nat) :
    dropTrailing '.' (dropTrailing '0' (signMark s ++ pointed 6 u)) = shown s u := by
  have hwhole := (digits_toDigits (u / 10 ^ 6)).not_mem_point
  have hfront : '.' ∉ signMark s ++ Nat.toDigits 10 (u / 10 ^ 6) := by
    cases s with
    | positive => exact hwhole
    | negative => simpa [signMark] using hwhole
  have hpoint : dropTrailing '0' (signMark s ++ Nat.toDigits 10 (u / 10 ^ 6) ++ ['.']) =
      signMark s ++ Nat.toDigits 10 (u / 10 ^ 6) ++ ['.'] := by
    rw [dropTrailing_append, dropTrailing_of_not_mem (by decide), if_neg (by simp)]
  have hzeros : dropTrailing '0' (signMark s ++ pointed 6 u) =
      signMark s ++ Nat.toDigits 10 (u / 10 ^ 6) ++ ['.'] ++ fraction u := by
    have hsplit : signMark s ++ pointed 6 u =
        signMark s ++ Nat.toDigits 10 (u / 10 ^ 6) ++ ['.'] ++ paddedDigits 6 (u % 10 ^ 6) := by
      simp only [pointed, Nat.pow_eq, List.append_assoc, List.singleton_append]
    rw [hsplit, dropTrailing_append, ← fraction]
    by_cases hf : fraction u = []
    · rw [if_pos hf, hpoint, hf, List.append_nil]
    · rw [if_neg hf]
  rw [hzeros, shown, pointTail, dropTrailing_append,
    dropTrailing_of_not_mem (digits_fraction u).not_mem_point]
  by_cases hf : fraction u = []
  · rw [if_pos hf, if_pos hf, List.append_nil, dropTrailing_append, if_pos (by decide),
      dropTrailing_of_not_mem hfront]
  · rw [if_neg hf, if_neg hf]
    simp only [List.append_assoc, List.singleton_append]

theorem shown_whole (s : Sign) (n : Nat) :
    shown s (n * 10 ^ 6) = signMark s ++ Nat.toDigits 10 n := by
  have hfraction : fraction (n * 10 ^ 6) = [] := by
    rw [fraction, Nat.mul_mod_left]
    decide
  rw [shown, hfraction, pointTail, if_pos rfl, List.append_nil, Nat.mul_div_cancel n (by norm_num)]

theorem readDecimal?_shown (u : Nat) :
    readDecimal? (Nat.toDigits 10 (u / 10 ^ 6) ++ pointTail (fraction u)) =
      some (ofDecimal (readDigits (Nat.toDigits 10 (u / 10 ^ 6) ++ fraction u))
        (-(fraction u).length)) := by
  have hdigits := digits_toDigits (u / 10 ^ 6)
  have hne : Nat.toDigits 10 (u / 10 ^ 6) ≠ [] := Nat.toDigits_ne_nil
  have hstop : Stops [] := by
    rintro c ⟨⟩
  by_cases hf : fraction u = []
  · rw [pointTail, if_pos hf, readDecimal?_whole hdigits hstop (by simp), if_neg hne, hf,
      List.append_nil]
    rfl
  · have hpointed := readDecimal?_pointed hdigits (digits_fraction u) hstop
    rw [List.append_nil, if_neg fun h => hne (List.append_eq_nil_iff.mp h).1] at hpointed
    rw [pointTail, if_neg hf, hpointed, readScale?, Option.map_some, zero_sub]

theorem readUnsigned?_of_readDecimal? {cs : List Char} {x : Float} (h : readDecimal? cs = some x) :
    readUnsigned? cs = some x := by
  have hne : cs ≠ "Infinity".toList := by
    rintro rfl
    cases h
  rw [readUnsigned?, if_neg hne, h]

theorem readNumeral?_of_readDecimal? {cs : List Char} {x : Float} (h : readDecimal? cs = some x) :
    readNumeral? cs = some x := by
  have hdecimal : Decimal cs := (readDecimal?_isSome_iff cs).mp (by rw [h]; rfl)
  unfold readNumeral?
  split
  · exact absurd hdecimal (decimal_signless _).2
  · exact absurd hdecimal (decimal_signless _).1
  · exact absurd (.inr hdecimal) (not_unsigned_hex (.inl rfl) _)
  · exact absurd (.inr hdecimal) (not_unsigned_hex (.inr rfl) _)
  · exact readUnsigned?_of_readDecimal? h

theorem isBlank_of_isDigit {c : Char} (h : c.isDigit = true) : Text.isBlank c = false := by
  rw [Char.isDigit, Bool.and_eq_true, decide_eq_true_iff, decide_eq_true_iff] at h
  have hlow : 48 ≤ c.toNat := UInt32.le_iff_toNat_le.mp h.1
  have hhigh : c.toNat ≤ 57 := UInt32.le_iff_toNat_le.mp h.2
  rw [Text.isBlank, Text.inRanges, List.any_eq_false]
  intro r hr
  simp only [Text.blankRanges, List.mem_cons, List.not_mem_nil, or_false] at hr
  rw [Bool.and_eq_true, decide_eq_true_iff, decide_eq_true_iff]
  rcases hr with rfl | rfl | rfl | rfl | rfl | rfl | rfl | rfl | rfl | rfl <;> simp only <;> omega

theorem isBlank_of_mem_shown {s : Sign} {u : Nat} : ∀ c ∈ shown s u, Text.isBlank c = false := by
  intro c hc
  rw [shown, List.mem_append, List.mem_append] at hc
  rcases hc with hc | hc | hc
  · cases s with
    | positive => cases hc
    | negative =>
      rw [List.mem_singleton.mp hc]
      decide
  · exact isBlank_of_isDigit (digits_toDigits _ c hc)
  · by_cases hf : fraction u = []
    · rw [pointTail, if_pos hf] at hc
      cases hc
    · rw [pointTail, if_neg hf, List.mem_cons] at hc
      rcases hc with rfl | hc
      · decide
      · exact isBlank_of_isDigit (digits_fraction u c hc)

def signed (s : Sign) (x : Float) : Float :=
  match s with
  | .positive => x
  | .negative => -x

theorem readNumber?_shown (s : Sign) (u : Nat) :
    Value.readNumber? (.ofList (shown s u)) =
      some (signed s (ofDecimal (readDigits (Nat.toDigits 10 (u / 10 ^ 6) ++ fraction u))
        (-(fraction u).length))) := by
  have hread := readDecimal?_shown u
  have hnumeral : readNumeral? (shown s u) =
      some (signed s (ofDecimal (readDigits (Nat.toDigits 10 (u / 10 ^ 6) ++ fraction u))
        (-(fraction u).length))) := by
    cases s with
    | positive => exact readNumeral?_of_readDecimal? hread
    | negative => exact congrArg (Option.map (- ·)) (readUnsigned?_of_readDecimal? hread)
  rw [Value.readNumber?, String.toList_ofList, Text.trimChars_of_unblank isBlank_of_mem_shown]
  split
  · rename_i h
    rw [h] at hnumeral
    cases hnumeral
  · exact hnumeral

end BlockScript.Number

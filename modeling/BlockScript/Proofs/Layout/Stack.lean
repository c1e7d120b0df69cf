import BlockScript.Layout
import BlockScript.Proofs.Number.Order

/-! Stacks. A stack is walked down with the ids it has passed, so it ends at a block without a
successor or just before a block that it has passed. The latter needs a block whose successor does
not stand below it, and there is none as long as the coordinates are not too large. -/

namespace BlockScript.Layout

theorem mem_candidates {blocks : List Block} {b c : Block} {expected : Point} :
    c ∈ candidates blocks b expected ↔ c ∈ blocks ∧ c.id ≠ b.id ∧ c.canFollow = true ∧
      c.position.near expected stackTolerance = true := by
  simp only [candidates, List.mem_filter, Bool.and_eq_true, bne_iff_ne, and_assoc]

theorem mem_of_foldl_nearer {expected : Point} {l : List Block} {best : Option (Block × Float)}
    {c : Block} {d : Float} (h : l.foldl (nearer expected) best = some (c, d)) :
    c ∈ l ∨ ∃ e, best = some (c, e) := by
  induction l generalizing best with
  | nil => exact .inr ⟨d, h⟩
  | cons b l ih =>
    rcases ih h with hc | ⟨e, he⟩
    · exact .inl (List.mem_cons_of_mem b hc)
    · simp only [nearer] at he
      split at he
      · split at he
        · cases he
          exact .inr ⟨_, rfl⟩
        · cases he
          exact .inl List.mem_cons_self
      · cases he
        exact .inl List.mem_cons_self

theorem mem_candidates_of_nearest {blocks : List Block} {b c : Block} {expected : Point}
    (h : nearest blocks b expected = some c) : c ∈ candidates blocks b expected := by
  obtain ⟨⟨d, distance⟩, hd, rfl⟩ := Option.map_eq_some_iff.mp h
  rcases mem_of_foldl_nearer hd with hc | ⟨e, he⟩
  · exact hc
  · cases he

theorem near_of_successor {blocks : List Block} {b c : Block} (h : successor blocks b = some c) :
    c ∈ blocks ∧ (c.position.y - (b.position.y + height blocks b)).abs < stackTolerance := by
  unfold successor follower at h
  split at h
  · cases h
  · obtain ⟨hc, -, -, hnear⟩ := mem_candidates.mp (mem_candidates_of_nearest h)
    rw [Point.near, Bool.and_eq_true, decide_eq_true_eq, decide_eq_true_eq] at hnear
    exact ⟨hc, hnear.2⟩

theorem mem_of_follower {blocks : List Block} {b c : Block} {height : Float}
    (h : follower blocks b height = some c) : c ∈ blocks ∧ c.id ≠ b.id := by
  unfold follower at h
  split at h
  · cases h
  · obtain ⟨hc, hid, -⟩ := mem_candidates.mp (mem_candidates_of_nearest h)
    exact ⟨hc, hid⟩

theorem countP_unseen_lt {blocks : List Block} {b : Block} {seen : List String} (hb : b ∈ blocks)
    (hseen : b.id ∉ seen) :
    blocks.countP (fun c => c.id ∉ b.id :: seen) < blocks.countP (fun c => c.id ∉ seen) := by
  have hsplit : (fun c : Block => decide (c.id ∉ b.id :: seen)) =
      fun c => decide (c.id ∉ seen) && decide (c.id ≠ b.id) := by
    funext c
    by_cases h : c.id = b.id <;> by_cases h' : c.id ∈ seen <;> simp [h, h']
  have hadd := List.length_eq_countP_add_countP (fun c : Block => decide (c.id ≠ b.id))
    (l := blocks.filter fun c => c.id ∉ seen)
  have hpos : 0 < (blocks.filter fun c => c.id ∉ seen).countP
      (fun c => decide ¬decide (c.id ≠ b.id) = true) :=
    List.countP_pos_iff.mpr ⟨b, List.mem_filter.mpr ⟨hb, by simpa using hseen⟩, by simp⟩
  rw [List.countP_filter, ← List.countP_eq_length_filter] at hadd
  simp only [hsplit, Bool.and_comm] at hadd ⊢
  omega

/-- The walk down from a block, past the blocks with other ids than `ids`. -/
inductive Walked (blocks : List Block) : List String → Block → List Block → Prop
  | passed {ids : List String} {b : Block} (h : b.id ∈ ids) : Walked blocks ids b []
  | bottom {ids : List String} {b : Block} (h : b.id ∉ ids) (hs : successor blocks b = none) :
    Walked blocks ids b [b]
  | down {ids : List String} {b c : Block} {l : List Block} (h : b.id ∉ ids)
    (hs : successor blocks b = some c) (hl : Walked blocks (b.id :: ids) c l) :
    Walked blocks ids b (b :: l)

theorem Walked.of_next {blocks : List Block} {n : Nat} {ids : List String} {b : Block}
    (h : b.id ∉ ids)
    (hrest : ∀ c ∈ successor blocks b, Walked blocks (b.id :: ids) c
      ((walk blocks (height blocks) n (b.id :: ids) c).map Prod.fst)) :
    Walked blocks ids b ((walk blocks (height blocks) (n + 1) ids b).map Prod.fst) := by
  rw [walk, if_neg h]
  cases hs : successor blocks b with
  | none =>
    rw [successor] at hs
    simp only [hs]
    exact .bottom h hs
  | some c =>
    have hwalked := hrest c hs
    rw [successor] at hs
    simp only [hs]
    exact .down h hs hwalked

theorem walk_walked {blocks : List Block} {n : Nat} {ids : List String} {b : Block}
    (hb : b ∈ blocks) (hn : blocks.countP (fun c => c.id ∉ ids) ≤ n) :
    Walked blocks ids b ((walk blocks (height blocks) n ids b).map Prod.fst) := by
  induction n generalizing ids b with
  | zero =>
    refine .passed ?_
    by_contra hseen
    have := countP_unseen_lt hb hseen
    omega
  | succ n ih =>
    by_cases hseen : b.id ∈ ids
    · rw [walk, if_pos hseen]
      exact .passed hseen
    · have hlt := countP_unseen_lt hb hseen
      exact .of_next hseen fun c hc => ih (near_of_successor hc).1 (by omega)

theorem stack_walked {blocks : List Block} {b : Block} (hb : b ∈ blocks) :
    Walked blocks [] b (stack blocks b) :=
  walk_walked hb (Nat.le_succ_of_le List.countP_le_length)

theorem Walked.subset {blocks : List Block} {ids : List String} {b : Block} {l : List Block}
    (h : Walked blocks ids b l) (hb : b ∈ blocks) : l ⊆ blocks := by
  induction h with
  | passed => exact List.nil_subset _
  | bottom => exact List.cons_subset.mpr ⟨hb, List.nil_subset _⟩
  | down h hs hl ih => exact List.cons_subset.mpr ⟨hb, ih (near_of_successor hs).1⟩

theorem Walked.nodup {blocks : List Block} {ids : List String} {b : Block} {l : List Block}
    (h : Walked blocks ids b l) : (l.map (·.id)).Nodup ∧ ∀ c ∈ l, c.id ∉ ids := by
  induction h with
  | passed => exact ⟨List.nodup_nil, by simp⟩
  | bottom h hs => exact ⟨List.nodup_singleton _, by simpa using h⟩
  | @down ids b c l h hs hl ih =>
    obtain ⟨hn, hids⟩ := ih
    refine ⟨?_, ?_⟩
    · rw [List.map_cons, List.nodup_cons]
      refine ⟨fun hmem => ?_, hn⟩
      obtain ⟨d, hd, he⟩ := List.mem_map.mp hmem
      exact hids d hd (he ▸ List.mem_cons_self)
    · intro d hd
      rcases List.mem_cons.mp hd with rfl | hd
      · exact h
      · exact fun hmem => hids d hd (List.mem_cons_of_mem _ hmem)

theorem Walked.head {blocks : List Block} {ids : List String} {b : Block} {l : List Block}
    (h : Walked blocks ids b l) : b.id ∈ ids ∧ l = [] ∨ ∃ t, l = b :: t := by
  cases h with
  | passed h => exact .inl ⟨h, rfl⟩
  | bottom | down => exact .inr ⟨_, rfl⟩

/-- Every block of a walk but the last is followed by its successor, and the successor of the last
has been passed. -/
theorem Walked.split {blocks : List Block} {ids : List String} {b : Block} {l : List Block}
    (h : Walked blocks ids b l) {l₁ l₂ : List Block} {c : Block} (hl : l = l₁ ++ c :: l₂) :
    l₂.head? = successor blocks c ∨
      l₂ = [] ∧ ∃ d, successor blocks c = some d ∧ d.id ∈ l.map (·.id) ++ ids := by
  induction h generalizing l₁ with
  | passed h => cases l₁ <;> cases hl
  | bottom h hs =>
    cases l₁ with
    | nil =>
      cases hl
      exact .inl hs.symm
    | cons e l₁ => cases l₁ <;> cases hl
  | @down ids b d l h hs hw ih =>
    cases l₁ with
    | nil =>
      cases hl
      rcases hw.head with ⟨hd, rfl⟩ | ⟨t, rfl⟩
      · exact .inr ⟨rfl, d, hs, by simpa using hd⟩
      · exact .inl hs.symm
    | cons e l₁ =>
      obtain ⟨rfl, htail⟩ := List.cons.inj hl
      refine (ih htail).imp_right fun ⟨hnil, x, hx, hmem⟩ => ⟨hnil, x, hx, ?_⟩
      simp only [List.map_cons, List.cons_append, List.mem_cons, List.mem_append] at hmem ⊢
      tauto

theorem Walked.successor_of_next {blocks : List Block} {ids : List String} {first b c : Block}
    {l l₁ l₂ : List Block} (h : Walked blocks ids first l) (hl : l = l₁ ++ b :: c :: l₂) :
    successor blocks b = some c := by
  rcases h.split hl with hs | ⟨hnil, -⟩
  · exact hs.symm
  · cases hnil

theorem Walked.unique {blocks : List Block} {ids : List String} {b : Block} {l l' : List Block}
    (h : Walked blocks ids b l) (h' : Walked blocks ids b l') : l = l' := by
  induction h generalizing l' with
  | passed h =>
    cases h' with
    | passed => rfl
    | bottom h' | down h' => exact absurd h h'
  | bottom h hs =>
    cases h' with
    | passed h' => exact absurd h' h
    | bottom => rfl
    | down _ hs' => cases hs.symm.trans hs'
  | down h hs _ ih =>
    cases h' with
    | passed h' => exact absurd h' h
    | bottom _ hs' => cases hs'.symm.trans hs
    | down _ hs' hl' =>
      cases hs.symm.trans hs'
      rw [ih hl']

/-- Whether the stack of `b` ends because its last block has no successor. -/
def Ends (blocks : List Block) (b : Block) : Prop :=
  ∀ c ∈ (stack blocks b).getLast?, successor blocks c = none

instance (blocks : List Block) (b : Block) : Decidable (Ends blocks b) :=
  decidable_of_iff ((stack blocks b).getLast?.all fun c => (successor blocks c).isNone) (by
    unfold Ends
    cases (stack blocks b).getLast? <;> simp)

theorem stack_eq_cons {blocks : List Block} {b : Block} (hb : b ∈ blocks) :
    ∃ t, stack blocks b = b :: t := by
  rcases (stack_walked hb).head with ⟨h, -⟩ | h
  · cases h
  · exact h

theorem stack_nodup {blocks : List Block} {b : Block} (hb : b ∈ blocks) :
    ((stack blocks b).map (·.id)).Nodup :=
  (stack_walked hb).nodup.1

theorem Ends.successor {blocks : List Block} {b : Block} (h : Ends blocks b) (hb : b ∈ blocks)
    {l₁ l₂ : List Block} {c : Block} (hl : stack blocks b = l₁ ++ c :: l₂) :
    l₂.head? = successor blocks c := by
  rcases (stack_walked hb).split hl with hs | ⟨rfl, d, hd, -⟩
  · exact hs
  · have hlast := h c (by simp [hl])
    rw [hlast] at hd
    cases hd

/-- A stack that does not end so is closed: every block of it has a successor in it. -/
theorem successor_mem_stack {blocks : List Block} {b : Block} (h : ¬ Ends blocks b)
    (hids : (blocks.map (·.id)).Nodup) (hb : b ∈ blocks) {c : Block} (hc : c ∈ stack blocks b) :
    ∃ d ∈ stack blocks b, successor blocks c = some d := by
  have hw := stack_walked hb
  obtain ⟨l₁, l₂, hl⟩ := List.append_of_mem hc
  rcases hw.split hl with hs | ⟨-, d, hd, hmem⟩
  · cases l₂ with
    | nil =>
      refine absurd (fun e he => ?_) h
      have hlast : (stack blocks b).getLast? = some c := by simp [hl]
      cases hlast.symm.trans he
      exact hs.symm
    | cons d l₂ =>
      refine ⟨d, ?_, hs.symm⟩
      rw [hl]
      simp
  · rw [List.append_nil] at hmem
    obtain ⟨e, he, hid⟩ := List.mem_map.mp hmem
    have heq : e = d :=
      List.inj_on_of_nodup_map hids (hw.subset hb he) (near_of_successor hd).1 hid
    exact ⟨d, heq ▸ he, hd⟩

/-- The walk down from `first` without a memory: the blocks it has passed, and the next one. -/
inductive Followed (blocks : List Block) (first : Block) : List Block → Option Block → Prop
  | start : Followed blocks first [] (some first)
  | next {l : List Block} {b : Block} (h : Followed blocks first l (some b)) :
    Followed blocks first (l ++ [b]) (successor blocks b)

theorem Followed.mem {blocks : List Block} {first : Block} {l : List Block} {b : Block}
    (h : Followed blocks first l (some b)) (hfirst : first ∈ blocks) : b ∈ blocks := by
  generalize hb : some b = b' at h
  cases h with
  | start =>
    cases hb
    exact hfirst
  | next h => exact (near_of_successor hb.symm).1

theorem Followed.of_ends {blocks : List Block} {first : Block} {l : List Block} {b : Option Block}
    (h : Followed blocks first l b) (hends : Ends blocks first) (hfirst : first ∈ blocks) :
    ∃ rest, stack blocks first = l ++ rest ∧ rest.head? = b := by
  induction h with
  | start =>
    obtain ⟨t, ht⟩ := stack_eq_cons hfirst
    exact ⟨first :: t, ht, rfl⟩
  | @next l b h ih =>
    obtain ⟨rest, hl, hhead⟩ := ih
    cases rest with
    | nil => cases hhead
    | cons c rest =>
      cases hhead
      refine ⟨rest, ?_, hends.successor hfirst hl⟩
      rw [hl, List.append_assoc, List.singleton_append]

theorem Followed.of_not_ends {blocks : List Block} {first : Block} {l : List Block}
    {b : Option Block} (h : Followed blocks first l b) (hends : ¬ Ends blocks first)
    (hids : (blocks.map (·.id)).Nodup) (hfirst : first ∈ blocks) :
    ∃ c ∈ stack blocks first, b = some c := by
  induction h with
  | start =>
    obtain ⟨t, ht⟩ := stack_eq_cons hfirst
    exact ⟨first, by simp [ht], rfl⟩
  | next h ih =>
    obtain ⟨c, hc, hb⟩ := ih
    cases hb
    exact successor_mem_stack hends hids hfirst hc

open Number (value? AtLeast AtMost HasBits)

theorem value_headHeight : value? headHeight.toModel.unpack = some 36 :=
  Number.value_positive (m := 36 * 2 ^ 47) (e := -47) (by norm_num) rfl (by norm_num)

theorem value_footHeight : value? footHeight.toModel.unpack = some 16 :=
  Number.value_positive (m := 2 ^ 52) (e := -48) (by norm_num) rfl (by norm_num)

theorem value_leastBodyHeight : value? leastBodyHeight.toModel.unpack = some 24 :=
  Number.value_positive (m := 24 * 2 ^ 48) (e := -48) (by norm_num) rfl (by norm_num)

theorem value_blockHeight : value? blockHeight.toModel.unpack = some 40 :=
  Number.value_positive (m := 40 * 2 ^ 47) (e := -47) (by norm_num) rfl (by norm_num)

theorem value_stackTolerance : value? stackTolerance.toModel.unpack = some 20 :=
  Number.value_positive (m := 20 * 2 ^ 48) (e := -48) (by norm_num) rfl (by norm_num)

theorem bodyHeightAt_atLeast (blocks : List Block) (levels : Nat) (b : Block) :
    AtLeast 24 (bodyHeightAt blocks levels b).toModel.unpack := by
  have hleast : AtLeast 24 leastBodyHeight.toModel.unpack :=
    .inr ⟨24, value_leastBodyHeight, le_rfl⟩
  cases levels with
  | zero => exact hleast
  | succ levels =>
    rw [bodyHeightAt]
    split
    · exact hleast
    · exact Number.atLeast_max value_leastBodyHeight

theorem hasBits_small {n : Nat} (hn : n < 2 ^ 53) : HasBits n :=
  ⟨n, 0, hn, by omega, by omega, by simp⟩

theorem heightWith_wrap_atLeast {body : Block → Float} {b : Block} {n : Nat}
    (hbody : AtLeast n (body b).toModel.unpack) (hn : n < 100) (hb : b.shape = .wrap) :
    AtLeast (n + 52) (heightWith body b).toModel.unpack := by
  have hhead : AtLeast 36 headHeight.toModel.unpack := .inr ⟨36, value_headHeight, le_rfl⟩
  have hfoot : AtLeast 16 footHeight.toModel.unpack := .inr ⟨16, value_footHeight, le_rfl⟩
  have hopen : AtLeast (n + 36 : Nat) (headHeight + body b).toModel.unpack :=
    Number.add_atLeast hhead hbody (hasBits_small (by omega)) (by push_cast; linarith)
  have hclosed : AtLeast (n + 52 : Nat) (headHeight + body b + footHeight).toModel.unpack :=
    Number.add_atLeast hopen hfoot (hasBits_small (by omega)) (by push_cast; linarith)
  rw [heightWith, hb]
  exact_mod_cast hclosed

theorem heightWith_atLeast {body : Block → Float} {b : Block}
    (hbody : AtLeast 24 (body b).toModel.unpack) :
    AtLeast 40 (heightWith body b).toModel.unpack := by
  have hplain : AtLeast 40 blockHeight.toModel.unpack := .inr ⟨40, value_blockHeight, le_rfl⟩
  cases hb : b.shape with
  | wrap =>
    have hwrap := heightWith_wrap_atLeast (n := 24) (by exact_mod_cast hbody) (by omega) hb
    exact hwrap.imp_right fun ⟨v, hv, hle⟩ => ⟨v, hv, by push_cast at hle; linarith⟩
  | hat | stack | reporter =>
    rw [heightWith, hb]
    exact hplain

theorem height_atLeast (blocks : List Block) (b : Block) :
    AtLeast 40 (height blocks b).toModel.unpack :=
  heightWith_atLeast (bodyHeightAt_atLeast blocks measuredNesting b)

/-- The numbers up to `2 ^ 56`. There the distance between neighbouring numbers is 16 at most, far
less than the height of a block. -/
def farthest : Float := 72057594037927936

theorem value_farthest : value? farthest.toModel.unpack = some (2 ^ 56) :=
  Number.value_positive (m := 2 ^ 52) (e := 4) (by norm_num) rfl (by norm_num)

/-- Between `v + 20` and `v + 36` there is a multiple of 16, which has few enough bits. -/
theorem exists_hasBits {v : ℚ} (hv : |v| ≤ 2 ^ 56) : ∃ q, HasBits q ∧ v + 20 ≤ q ∧ q ≤ v + 40 := by
  obtain ⟨hlow, hhigh⟩ := abs_le.mp hv
  let k : ℤ := ⌈(v + 20) / 16⌉
  have hceil : (v + 20) / 16 ≤ k := Int.le_ceil _
  have hlt : (k : ℚ) < (v + 20) / 16 + 1 := Int.ceil_lt_add_one _
  have habs : ((k.natAbs : Nat) : ℚ) = |(k : ℚ)| := by rw [Nat.cast_natAbs, Int.cast_abs]
  have hk : k.natAbs < 2 ^ 53 := by
    have hcast : |(k : ℚ)| < 2 ^ 53 := abs_lt.mpr ⟨by linarith, by linarith⟩
    rw [← habs] at hcast
    exact_mod_cast hcast
  have hpos : (0 : ℚ) < 2 ^ (4 : ℤ) := zpow_pos two_pos 4
  refine ⟨k * 2 ^ (4 : ℤ), ⟨k.natAbs, 4, hk, by omega, by omega, ?_⟩, ?_, ?_⟩
  · rw [abs_mul, abs_of_pos hpos, habs]
  · norm_num
    linarith
  · norm_num
    linarith

theorem successor_below {blocks : List Block} {b c : Block} {v w : ℚ}
    (h : successor blocks b = some c) (hb : value? b.position.y.toModel.unpack = some v)
    (hv : |v| ≤ 2 ^ 56) (hc : value? c.position.y.toModel.unpack = some w) : v < w := by
  by_contra hle
  obtain ⟨d, hd, hnear⟩ := Number.exists_abs_lt value_stackTolerance (near_of_successor h).2
  obtain ⟨q, hq, hlow, hhigh⟩ := exists_hasBits hv
  have hsum : AtLeast q (b.position.y + height blocks b).toModel.unpack :=
    Number.add_atLeast (.inr ⟨v, hb, le_rfl⟩) (height_atLeast blocks b) hq hhigh
  have hbits : HasBits (-20) := ⟨20, 0, by norm_num, by omega, by omega, by norm_num⟩
  have hfar : AtMost (-20) (c.position.y - (b.position.y + height blocks b)).toModel.unpack :=
    Number.sub_atMost (.inr ⟨w, hc, le_rfl⟩) hsum hbits (by linarith)
  have hfall : AtLeast d (c.position.y - (b.position.y + height blocks b)).toModel.unpack :=
    .inr ⟨d, hd, le_rfl⟩
  exact hfall.not_atMost (abs_lt.mp hnear).1 hfar

/-- Not too far up or down, the blocks of a stack go strictly downwards, so the stack ends. -/
theorem ends_of_le_farthest {blocks : List Block} {b : Block} (hids : (blocks.map (·.id)).Nodup)
    (hb : b ∈ blocks) (hfar : ∀ c ∈ blocks, c.position.y.abs ≤ farthest) : Ends blocks b := by
  by_contra hends
  let y (c : Block) : ℚ := (value? c.position.y.toModel.unpack).getD 0
  have hvalue : ∀ c ∈ blocks, value? c.position.y.toModel.unpack = some (y c) ∧ |y c| ≤ 2 ^ 56 := by
    intro c hc
    obtain ⟨v, hv, hle⟩ := Number.exists_abs_le value_farthest (hfar c hc)
    have hy : y c = v := by simp only [y, hv, Option.getD_some]
    rw [hy]
    exact ⟨hv, hle⟩
  have hsub := (stack_walked hb).subset hb
  obtain ⟨t, ht⟩ := stack_eq_cons hb
  obtain ⟨c, hc, hmax⟩ := Set.exists_max_image {c | c ∈ stack blocks b} y
    (List.finite_toSet _) ⟨b, by simp [ht]⟩
  obtain ⟨d, hd, hs⟩ := successor_mem_stack hends hids hb hc
  obtain ⟨hyc, hle⟩ := hvalue c (hsub hc)
  obtain ⟨hyd, -⟩ := hvalue d (hsub hd)
  have hlt := successor_below hs hyc hle hyd
  exact absurd (hmax d hd) (not_le.mpr hlt)

end BlockScript.Layout

import BlockScript.Proofs.Layout.Order
import BlockScript.Proofs.Number.Distance

/-! A block that is added after the others. It changes a lookup only by taking it over, for which it
has to be strictly nearer than the block found there so far. A block that takes over no lookup
leaves the structure of the others as it is, and one that stands exactly where it is looked for
takes over unless another block stands exactly there. -/

namespace BlockScript.Layout

open Number (value? rank? Positive)

/-- Whether the block `n`, added after `blocks`, is found at `expected` next to `b`. -/
def Takes (blocks : List Block) (n b : Block) (expected : Point) : Prop :=
  (n.id ≠ b.id ∧ n.canFollow = true ∧ n.position.near expected stackTolerance = true) ∧
    ∀ c ∈ nearest blocks b expected, n.position.distance expected < c.position.distance expected

instance (blocks : List Block) (n b : Block) (expected : Point) :
    Decidable (Takes blocks n b expected) :=
  inferInstanceAs (Decidable (_ ∧ _))

theorem nearest_snoc (blocks : List Block) (n b : Block) (expected : Point) :
    nearest (blocks ++ [n]) b expected =
      if Takes blocks n b expected then some n else nearest blocks b expected := by
  have happend : candidates (blocks ++ [n]) b expected =
      candidates blocks b expected ++ candidates [n] b expected := List.filter_append ..
  rw [nearest_eq_argmin, nearest_eq_argmin, happend]
  by_cases hn : n ∈ candidates [n] b expected
  · have hmay := (mem_candidates.mp hn).2
    have hself : candidates [n] b expected = [n] :=
      List.filter_eq_self.mpr fun c hc => List.mem_singleton.mp hc ▸ (List.mem_filter.mp hn).2
    rw [hself, List.argmin_concat]
    cases hc : (candidates blocks b expected).argmin (remoteness expected) with
    | none =>
      have htakes : Takes blocks n b expected := by
        refine ⟨hmay, fun c hc' => ?_⟩
        rw [nearest_eq_argmin, hc] at hc'
        cases hc'
      rw [if_pos htakes]
    | some c =>
      have htakes : Takes blocks n b expected ↔ remoteness expected n < remoteness expected c := by
        rw [← Number.lt_iff_rank (ranked_of_mem_candidates hn)
          (ranked_of_mem_candidates (List.argmin_mem hc)), Takes, nearest_eq_argmin, hc]
        simp [hmay]
      simp only [htakes]
  · have hnone : candidates [n] b expected = [] :=
      List.filter_eq_nil_iff.mpr fun c hc hmay =>
        hn (List.mem_filter.mpr ⟨List.mem_singleton_self n, List.mem_singleton.mp hc ▸ hmay⟩)
    have hnot : ¬ Takes blocks n b expected := fun h =>
      hn (mem_candidates.mpr ⟨List.mem_singleton_self n, h.1⟩)
    rw [if_neg hnot, hnone, List.append_nil]

theorem nearest_snoc_of_not_takes {blocks : List Block} {n b : Block} {expected : Point}
    (h : ¬ Takes blocks n b expected) :
    nearest blocks b expected = nearest (blocks ++ [n]) b expected := by
  rw [nearest_snoc, if_neg h]

/-- A candidate that is strictly nearer than all others is found. -/
theorem nearest_eq_of_forall_lt {blocks : List Block} {b q : Block} {expected : Point}
    (hq : q ∈ candidates blocks b expected)
    (h : ∀ c ∈ candidates blocks b expected, c ≠ q →
      q.position.distance expected < c.position.distance expected) :
    nearest blocks b expected = some q := by
  rw [nearest_eq_argmin]
  cases hc : (candidates blocks b expected).argmin (remoteness expected) with
  | none =>
    rw [List.argmin_eq_none] at hc
    rw [hc] at hq
    cases hq
  | some c =>
    have hmem : c ∈ candidates blocks b expected := List.argmin_mem hc
    by_contra hne
    have hlt := (Number.lt_iff_rank (ranked_of_mem_candidates hq)
      (ranked_of_mem_candidates hmem)).mp (h c hmem fun he => hne (congrArg some he))
    exact absurd (List.le_of_mem_argmin hq hc) (not_le.mpr hlt)

theorem firstChild_snoc (blocks : List Block) (n : Block) {p : Block} (hp : p.shape = .wrap) :
    firstChild (blocks ++ [n]) p =
      if Takes blocks n p (insidePoint p) then some n else firstChild blocks p := by
  rw [firstChild, firstChild, if_pos hp, if_pos hp, nearest_snoc]

theorem successor_snoc {blocks : List Block} {n p : Block} (hp : p.shape ≠ .reporter)
    (hheight : height (blocks ++ [n]) p = height blocks p) :
    successor (blocks ++ [n]) p =
      if Takes blocks n p (bottomPoint blocks p) then some n else successor blocks p := by
  rw [successor, successor, hheight, follower, follower, if_neg hp, if_neg hp, nearest_snoc,
    bottomPoint]

theorem height_snoc {blocks : List Block} {n p : Block}
    (h : ∀ l ∈ bodyLookups blocks measuredNesting p, ¬ Takes blocks n l.1 l.2) :
    height (blocks ++ [n]) p = height blocks p := by
  have hbody : bodyHeight blocks p = bodyHeight (blocks ++ [n]) p :=
    bodyHeightAt_congr fun l hl => nearest_snoc_of_not_takes (h l hl)
  rw [height, height, heightWith, heightWith, hbody]

theorem shape_of_firstChild {blocks : List Block} {p q : Block}
    (h : firstChild blocks p = some q) : p.shape = .wrap := by
  by_contra hp
  rw [firstChild, if_neg hp] at h
  cases h

theorem shape_of_successor {blocks : List Block} {p q : Block}
    (h : successor blocks p = some q) : p.shape ≠ .reporter := by
  intro hp
  rw [successor, follower, if_pos hp] at h
  cases h

theorem mem_stack_self {blocks : List Block} (p : Block) : p ∈ stack blocks p := by
  rw [stack, walkBound, walk, if_neg List.not_mem_nil]
  exact List.mem_map_of_mem List.mem_cons_self

theorem mem_stack_of_successor {blocks : List Block} {p q : Block}
    (h : successor blocks p = some q) : q ∈ stack blocks p := by
  obtain ⟨hq, hne⟩ := mem_of_follower h
  obtain ⟨k, hk⟩ := Nat.exists_eq_add_one.mpr (List.length_pos_of_mem hq)
  have hunseen : q.id ∉ [p.id] := by simpa using hne
  rw [successor] at h
  simp only [stack, walkBound, hk, walk, if_neg List.not_mem_nil, h, if_neg hunseen, List.map_cons]
  exact List.mem_cons_of_mem _ List.mem_cons_self

theorem mem_body_of_firstChild {blocks : List Block} {p q : Block}
    (h : firstChild blocks p = some q) : q ∈ body blocks p := by
  simp only [body, h]
  exact mem_stack_self q

theorem stack_congr {blocks blocks' : List Block} {b : Block} (hb : b ∈ blocks)
    (hsub : blocks ⊆ blocks') (hheight : ∀ c ∈ blocks, height blocks c = height blocks' c)
    (hbelow : ∀ c ∈ blocks, successor blocks c = successor blocks' c) :
    stack blocks b = stack blocks' b := by
  have hcount := countP_le_walkBound blocks []
  have hcount' := countP_le_walkBound blocks' []
  have hmem := (stack_walked hb).subset hb
  rw [stack, walk_enough hb hcount (hcount.trans (Nat.le_max_left _ (walkBound blocks')))]
    at hmem ⊢
  rw [stack, walk_enough (hsub hb) hcount' (hcount'.trans (Nat.le_max_right (walkBound blocks) _))]
  congr 1
  apply walk_congr
  intro c hc
  have hc' : c.1 ∈ blocks := hmem (List.mem_map_of_mem hc)
  have hfollower := hbelow c.1 hc'
  rw [successor, successor, ← hheight c.1 hc'] at hfollower
  rw [snd_of_mem_walk hc]
  exact ⟨hheight c.1 hc', hfollower⟩

/-- A block that takes over nothing leaves the structure of the others as it is. -/
theorem structure_snoc {blocks : List Block} {n p : Block} (hp : p ∈ blocks)
    (h : ∀ b expected, ¬ Takes blocks n b expected) :
    firstChild (blocks ++ [n]) p = firstChild blocks p ∧
      height (blocks ++ [n]) p = height blocks p ∧
      successor (blocks ++ [n]) p = successor blocks p ∧
      stack (blocks ++ [n]) p = stack blocks p ∧ body (blocks ++ [n]) p = body blocks p := by
  have hchild (c : Block) : firstChild blocks c = firstChild (blocks ++ [n]) c :=
    firstChild_congr fun l _ => nearest_snoc_of_not_takes (h l.1 l.2)
  have hheight (c : Block) : height blocks c = height (blocks ++ [n]) c :=
    (height_snoc fun l _ => h l.1 l.2).symm
  have hbelow (c : Block) : successor blocks c = successor (blocks ++ [n]) c := by
    rw [successor, successor, ← hheight]
    exact follower_congr fun l _ => nearest_snoc_of_not_takes (h l.1 l.2)
  have hstack {c : Block} (hc : c ∈ blocks) : stack blocks c = stack (blocks ++ [n]) c :=
    stack_congr hc (List.subset_append_left _ _) (fun d _ => hheight d) fun d _ => hbelow d
  refine ⟨(hchild p).symm, (hheight p).symm, (hbelow p).symm, (hstack hp).symm, ?_⟩
  rw [body, body, ← hchild p]
  cases hfirst : firstChild blocks p with
  | none => rfl
  | some first => exact (hstack (mem_of_firstChild hfirst)).symm

theorem not_takes_of_not_canFollow {blocks : List Block} {n : Block} (h : n.canFollow = false)
    (b : Block) (expected : Point) : ¬ Takes blocks n b expected := by
  rintro ⟨⟨-, hcan, -⟩, -⟩
  rw [h] at hcan
  cases hcan

/-- Whether the coordinates of `p` are finite. -/
def Finite (p : Point) : Prop :=
  ∃ v w, value? p.x.toModel.unpack = some v ∧ value? p.y.toModel.unpack = some w

theorem Finite.same_self {p : Point} (h : Finite p) : p.same p = true := by
  obtain ⟨v, w, hx, hy⟩ := h
  simp only [Point.same, Bool.and_eq_true]
  exact ⟨(Number.beq_iff_value hx hx).mpr rfl, (Number.beq_iff_value hy hy).mpr rfl⟩

theorem legs_of_same {p q : Point} (hq : Finite q) (h : p.same q = true) :
    value? (p.x - q.x).toModel.unpack = some 0 ∧ value? (p.y - q.y).toModel.unpack = some 0 := by
  obtain ⟨v, w, hx, hy⟩ := hq
  rw [Point.same, Bool.and_eq_true] at h
  have hround := Number.sub_rounds (Number.value_of_beq hx h.1) hx
  have hround' := Number.sub_rounds (Number.value_of_beq hy h.2) hy
  rw [sub_self] at hround hround'
  exact ⟨hround.eq Number.hasBits_zero, hround'.eq Number.hasBits_zero⟩

theorem near_of_same {p q : Point} (hq : Finite q) (h : p.same q = true) {tolerance : Float} {r : ℚ}
    (htolerance : value? tolerance.toModel.unpack = some r) (hr : 0 < r) :
    p.near q tolerance = true := by
  obtain ⟨hx, hy⟩ := legs_of_same hq h
  simp only [Point.near, Bool.and_eq_true, decide_eq_true_eq]
  rw [Number.lt_iff_value (Number.abs_value hx) htolerance,
    Number.lt_iff_value (Number.abs_value hy) htolerance, abs_zero]
  exact ⟨hr, hr⟩

theorem distance_of_same {p q : Point} (hq : Finite q) (h : p.same q = true) :
    rank? (p.distance q).toModel.unpack = some (WithBotTop.coe 0) := by
  obtain ⟨hx, hy⟩ := legs_of_same hq h
  rcases Number.hypot_rank_zero hx hy with ⟨-, -, hrank⟩ | ⟨hne | hne, -⟩
  · exact hrank
  · exact absurd rfl hne
  · exact absurd rfl hne

theorem distance_positive {p q : Point} (hnear : p.near q stackTolerance = true)
    (h : p.same q = false) : Positive (p.distance q).toModel.unpack := by
  simp only [Point.near, Bool.and_eq_true, decide_eq_true_eq] at hnear
  obtain ⟨d, hd, -⟩ := Number.exists_abs_lt value_stackTolerance hnear.1
  obtain ⟨e, he, -⟩ := Number.exists_abs_lt value_stackTolerance hnear.2
  rcases Number.hypot_rank_zero hd he with ⟨rfl, rfl, -⟩ | ⟨-, hpos⟩
  · obtain ⟨v, w, hx, hx'⟩ := Number.exists_value_of_sub hd
    obtain ⟨v', w', hy, hy'⟩ := Number.exists_value_of_sub he
    have hsame : p.same q = true := by
      simp only [Point.same, Bool.and_eq_true]
      exact ⟨(Number.beq_iff_value hx hx').mpr ((Number.sub_value_eq_zero_iff hx hx' hd).mp rfl),
        (Number.beq_iff_value hy hy').mpr ((Number.sub_value_eq_zero_iff hy hy' he).mp rfl)⟩
    cases h.symm.trans hsame
  · exact hpos

/-- A block that stands exactly where it is looked for is found, unless another one stands exactly
there: of two equally near blocks the earlier one is found. -/
theorem takes_iff_of_exact {blocks : List Block} {n b : Block} (hfin : Finite n.position)
    (hid : n.id ≠ b.id) (hcan : n.canFollow = true) :
    Takes blocks n b n.position ↔
      ∀ c ∈ blocks, c.id ≠ b.id → c.canFollow = true → c.position.same n.position = false := by
  have hzero := distance_of_same hfin hfin.same_self
  constructor
  · rintro ⟨-, hlt⟩ c hc hne hfollow
    by_contra hsame
    rw [Bool.not_eq_false] at hsame
    have hcand : c ∈ candidates blocks b n.position := mem_candidates.mpr
      ⟨hc, hne, hfollow, near_of_same hfin hsame value_stackTolerance (by norm_num)⟩
    rw [nearest_eq_argmin] at hlt
    cases hd : (candidates blocks b n.position).argmin (remoteness n.position) with
    | none =>
      rw [List.argmin_eq_none] at hd
      rw [hd] at hcand
      cases hcand
    | some d =>
      have hle := List.le_of_mem_argmin hcand hd
      have hrank := ranked_of_mem_candidates (List.argmin_mem hd)
      have hcrank := (ranked_of_mem_candidates hcand).symm.trans (distance_of_same hfin hsame)
      have hpos := (Number.lt_iff_rank hzero hrank).mp (hlt d hd)
      rw [Option.some.inj hcrank] at hle
      exact absurd hpos (not_lt.mpr hle)
  · intro h
    refine ⟨⟨hid, hcan, near_of_same hfin hfin.same_self value_stackTolerance (by norm_num)⟩, ?_⟩
    intro c hc
    obtain ⟨hmem, hne, hfollow, hnear⟩ := mem_candidates.mp (mem_candidates_of_nearest hc)
    obtain ⟨r, hrank, hpos⟩ := distance_positive hnear (h c hmem hne hfollow)
    exact (Number.lt_iff_rank hzero hrank).mpr hpos

end BlockScript.Layout

import BlockScript.Proofs.Layout.Newcomer
import BlockScript.Proofs.Number.Exact
import BlockScript.Proofs.Script.Distinct

/-! Dragging a stack. Its blocks move by the same amount and what stands inside of them stays behind,
so with no other block near by every wrap block of the stack is as high as an empty one afterwards.
The stack stays together if and only if each of its blocks is found below the one before it when
that one is measured so. -/

namespace BlockScript.Layout

open Number (value? AtLeast IsWhole)

/-- The height of `b` with nothing inside. -/
def bareHeight (b : Block) : Float :=
  heightWith (fun _ => leastBodyHeight) b

def bareBottom (b : Block) : Point :=
  ⟨b.position.x, b.position.y + bareHeight b⟩

/-- The blocks after those called `ids` have moved by `d`. -/
def dragged (blocks : List Block) (ids : List String) (d : Point) : List Block :=
  blocks.map fun b => if ids.contains b.id then b.shift d else b

def part (blocks : List Block) (ids : List String) : List Block :=
  blocks.filter fun b => ids.contains b.id

/-- Whether `c` stands at least 40 to the side of `b`. -/
def Aside (c b : Block) : Prop :=
  ∀ v ∈ value? c.position.x.toModel.unpack, ∀ w ∈ value? b.position.x.toModel.unpack, 40 ≤ |v - w|

/-- The numbers up to `2 ^ 52`. There a sum is at most one off. -/
def reach : Float := 4503599627370496

theorem value_reach : value? reach.toModel.unpack = some (2 ^ 52) :=
  Number.value_positive (m := 2 ^ 52) (e := 0) (by norm_num) rfl (by norm_num)

theorem value_indent : value? indent.toModel.unpack = some 20 :=
  Number.value_positive (m := 20 * 2 ^ 48) (e := -48) (by norm_num) rfl (by norm_num)

theorem abs_lt_of_near {p q : Point} (h : p.near q stackTolerance = true) :
    (p.x - q.x).abs < stackTolerance ∧ (p.y - q.y).abs < stackTolerance := by
  simpa only [Point.near, Bool.and_eq_true, decide_eq_true_eq] using h

theorem exists_values_of_abs_lt {x y : Float} (h : (x - y).abs < stackTolerance) :
    ∃ v w, value? x.toModel.unpack = some v ∧ value? y.toModel.unpack = some w ∧ |v - w| < 20 := by
  obtain ⟨d, hd, -⟩ := Number.exists_abs_lt value_stackTolerance h
  obtain ⟨v, w, hv, hw⟩ := Number.exists_value_of_sub hd
  exact ⟨v, w, hv, hw, Number.abs_sub_lt hv hw value_stackTolerance h⟩

theorem Aside.not_near_below {c b : Block} (h : Aside c b) (y : Float) :
    c.position.near ⟨b.position.x, y⟩ stackTolerance = false := by
  by_contra hnear
  obtain ⟨v, w, hv, hw, hlt⟩ :=
    exists_values_of_abs_lt (abs_lt_of_near (Bool.not_eq_false _ ▸ hnear)).1
  exact absurd (h v hv w hw) (not_le.mpr (by linarith))

theorem Aside.not_near_inside {c b : Block} (h : Aside c b) (hb : b.position.x.abs ≤ reach) :
    c.position.near (insidePoint b) stackTolerance = false := by
  by_contra hnear
  obtain ⟨v, q, hv, hq, hlt⟩ :=
    exists_values_of_abs_lt (abs_lt_of_near (Bool.not_eq_false _ ▸ hnear)).1
  obtain ⟨w, hw, hle⟩ := Number.exists_abs_le value_reach hb
  obtain ⟨hlow, hhigh⟩ := abs_le.mp hle
  have hround := Number.add_rounds hw value_indent
  obtain ⟨r, hr, hclose⟩ :=
    Number.add_close hw value_indent (abs_lt.mpr ⟨by linarith, by linarith⟩)
  cases hq.symm.trans hr
  obtain ⟨hclose, hclose'⟩ := abs_le.mp hclose
  obtain ⟨hlt, hlt'⟩ := abs_lt.mp hlt
  rcases le_abs'.mp (h v hv w hw) with hfar | hfar
  · linarith
  · -- So `c` stands just 40 to the right, and one of the numbers 20 between them is not rounded.
    rcases le_or_gt 10 v with hv10 | hv10
    · have hbits := (Number.hasBits_of_value hv).sub_twenty hv10 (by linarith)
      rcases (hround _ hbits).2 (by linarith) with hinf | ⟨r, hr', hle⟩
      · rw [hinf] at hr
        cases hr
      · cases hr.symm.trans hr'
        linarith
    · have hbits := ((Number.hasBits_of_value hw).neg.sub_twenty (by linarith) (by linarith)).neg
      rw [neg_sub, sub_neg_eq_add, add_comm] at hbits
      cases hr.symm.trans (hround.eq hbits)
      linarith

/-- Rounding does not bring 40 up to 41. -/
theorem aside_of_le {c b : Block} (h : (41 : Float) ≤ (c.position.x - b.position.x).abs) :
    Aside c b := by
  intro v hv w hw
  by_contra hlt
  obtain ⟨hlow, hhigh⟩ := abs_lt.mp (not_le.mp hlt)
  have hround := Number.sub_rounds hv hw
  have hbits := Number.hasBits_of_value value_blockHeight
  obtain ⟨d, hd, hle, hge⟩ :=
    Number.exists_value_between ((hround _ hbits.neg).1 hlow.le) ((hround _ hbits).2 hhigh.le)
  have hvalue : value? (41 : Float).toModel.unpack = some 41 :=
    Number.value_positive (m := 41 * 2 ^ 47) (e := -47) (by norm_num) rfl (by norm_num)
  have hcoe : WithBotTop.coe 41 ≤ WithBotTop.coe |d| :=
    (Number.le_iff_rank (Number.rank_coe_of_value hvalue)
      (Number.rank_coe_of_value (Number.abs_value hd))).mp h
  have hbound := WithBotTop.coe_strictMono.le_iff_le.mp hcoe
  have habs : |d| ≤ 40 := abs_le.mpr ⟨hle, hge⟩
  linarith

theorem height_of_firstChild_none {blocks : List Block} {b : Block}
    (h : firstChild blocks b = none) : height blocks b = bareHeight b := by
  have hbody : bodyHeight blocks b = leastBodyHeight := by
    rw [bodyHeight, measuredNesting, bodyHeightAt, h]
  rw [height, bareHeight, heightWith, heightWith, hbody]

theorem foldl_atLeast {l : List (Block × Float)} {total : Float}
    (hl : ∀ c ∈ l, AtLeast 40 c.2.toModel.unpack) (htotal : AtLeast 40 total.toModel.unpack) :
    AtLeast 40 (l.foldl (fun total c => total + c.2) total).toModel.unpack := by
  induction l generalizing total with
  | nil => exact htotal
  | cons c l ih =>
    refine ih (fun e he => hl e (List.mem_cons_of_mem c he)) ?_
    exact Number.add_atLeast htotal (hl c List.mem_cons_self)
      (Number.hasBits_of_value value_blockHeight) (by norm_num)

theorem walk_eq_cons (blocks : List Block) (height : Block → Float) (n : Nat) {seen : List String}
    {b : Block} (hb : b.id ∉ seen) :
    ∃ rest, walk blocks height (n + 1) seen b = (b, height b) :: rest :=
  ⟨_, by rw [walk, if_neg hb]⟩

theorem bodyHeightAt_of_firstChild {blocks : List Block} {b first : Block} (levels : Nat)
    (h : firstChild blocks b = some first) :
    AtLeast 40 (bodyHeightAt blocks (levels + 1) b).toModel.unpack := by
  have hunseen : first.id ∉ [b.id] := by
    rw [firstChild, if_pos (shape_of_firstChild h)] at h
    simpa using (mem_candidates.mp (mem_candidates_of_nearest h)).2.1
  have hheight (c : Block) :
      AtLeast 40 (heightWith (bodyHeightAt blocks levels) c).toModel.unpack :=
    heightWith_atLeast (bodyHeightAt_atLeast blocks levels c)
  obtain ⟨rest, hwalk⟩ := walk_eq_cons blocks (heightWith (bodyHeightAt blocks levels))
    blocks.length hunseen
  have hrest : ∀ c ∈ rest, AtLeast 40 c.2.toModel.unpack := by
    intro c hc
    have hmem : c ∈ walk blocks (heightWith (bodyHeightAt blocks levels)) (blocks.length + 1) [b.id]
        first := hwalk ▸ List.mem_cons_of_mem _ hc
    rw [snd_of_mem_walk hmem]
    exact hheight c.1
  have hfirst : AtLeast 40 (0 + heightWith (bodyHeightAt blocks levels) first).toModel.unpack :=
    Number.add_atLeast (a := 0) (.inr ⟨0, rfl, le_rfl⟩) (hheight first)
      (Number.hasBits_of_value value_blockHeight) (by norm_num)
  have htotal := foldl_atLeast hrest hfirst
  rw [bodyHeightAt, h]
  simp only [walkBound, hwalk, List.foldl_cons]
  rw [Number.atLeast, if_pos (Number.lt_of_atLeast value_leastBodyHeight htotal (by norm_num))]
  exact htotal

/-- A wrap block that is not empty is at least 92 high. -/
theorem height_of_firstChild {blocks : List Block} {b first : Block}
    (h : firstChild blocks b = some first) : AtLeast 92 (height blocks b).toModel.unpack := by
  have hbody : AtLeast (40 : Nat) (bodyHeight blocks b).toModel.unpack := by
    exact_mod_cast bodyHeightAt_of_firstChild 31 h
  have hheight := heightWith_wrap_atLeast hbody (by norm_num) (shape_of_firstChild h)
  norm_num at hheight
  exact hheight

def depth (b : Block) : ℚ :=
  (value? b.position.y.toModel.unpack).getD 0

theorem value_depth {b : Block} (h : b.position.y.abs ≤ reach) :
    value? b.position.y.toModel.unpack = some (depth b) ∧ |depth b| ≤ 2 ^ 52 := by
  obtain ⟨v, hv, hle⟩ := Number.exists_abs_le value_reach h
  have hdepth : depth b = v := by rw [depth, hv, Option.getD_some]
  rw [hdepth]
  exact ⟨hv, hle⟩

theorem Walked.descends {blocks : List Block} {ids : List String} {b : Block} {l : List Block}
    (h : Walked blocks ids b l) (hreach : ∀ c ∈ l, c.position.y.abs ≤ reach) :
    l.Pairwise fun b c => depth b < depth c := by
  induction h with
  | passed => exact .nil
  | bottom => exact List.pairwise_singleton _ _
  | @down ids b c l h hs hl ih =>
    rcases hl.head with ⟨-, rfl⟩ | ⟨t, rfl⟩
    · exact List.pairwise_singleton _ _
    · have ih := ih fun e he => hreach e (List.mem_cons_of_mem b he)
      obtain ⟨hb, hle⟩ := value_depth (hreach b List.mem_cons_self)
      obtain ⟨hc, -⟩ := value_depth (hreach c (List.mem_cons_of_mem b List.mem_cons_self))
      have hlt : depth b < depth c := successor_below hs hb (hle.trans (by norm_num)) hc
      refine List.pairwise_cons.mpr ⟨fun e he => ?_, ih⟩
      rcases List.mem_cons.mp he with rfl | he
      · exact hlt
      · exact hlt.trans ((List.pairwise_cons.mp ih).1 e he)

/-- In the mouth of a block is about 36 below it. -/
theorem depth_of_near_inside {b c : Block} (hb : b.position.y.abs ≤ reach)
    (hc : c.position.y.abs ≤ reach) (h : c.position.near (insidePoint b) stackTolerance = true) :
    depth b + 15 < depth c ∧ depth c < depth b + 57 := by
  obtain ⟨hvb, hle⟩ := value_depth hb
  obtain ⟨hvc, -⟩ := value_depth hc
  obtain ⟨hlow, hhigh⟩ := abs_le.mp hle
  obtain ⟨r, hr, hclose⟩ :=
    Number.add_close hvb value_headHeight (abs_lt.mpr ⟨by linarith, by linarith⟩)
  obtain ⟨hclose, hclose'⟩ := abs_le.mp hclose
  obtain ⟨hlt, hlt'⟩ :=
    abs_lt.mp (Number.abs_sub_lt hvc hr value_stackTolerance (abs_lt_of_near h).2)
  exact ⟨by linarith, by linarith⟩

/-- Below a wrap block that is not empty is at least 92 below it, but for the tolerance. -/
theorem depth_of_successor {blocks : List Block} {b c first : Block}
    (hb : b.position.y.abs ≤ reach) (hfirst : firstChild blocks b = some first)
    (h : successor blocks b = some c) : depth b + 71 < depth c := by
  obtain ⟨hvb, hle⟩ := value_depth hb
  obtain ⟨hlow, hhigh⟩ := abs_le.mp hle
  obtain ⟨v, w, hv, hw, hbelow⟩ := exists_values_of_abs_lt (near_of_successor h).2
  have hdepth : depth c = v := by rw [depth, hv, Option.getD_some]
  have hfloor := Int.floor_le (depth b + 92)
  have hfloor' := Int.lt_floor_add_one (depth b + 92)
  have hbottom : AtLeast ⌊depth b + 92⌋ (b.position.y + height blocks b).toModel.unpack :=
    Number.add_atLeast (.inr ⟨_, hvb, le_rfl⟩) (height_of_firstChild hfirst)
      (Number.hasBits_int (abs_lt.mpr ⟨by linarith, by linarith⟩)) hfloor
  rcases hbottom with hinf | ⟨w', hw', hge⟩
  · rw [hinf] at hw
    cases hw
  · cases hw.symm.trans hw'
    have := (abs_lt.mp hbelow).1
    linarith

theorem exists_firstChild {blocks : List Block} {b c : Block} (hb : b.shape = .wrap)
    (hc : c ∈ candidates blocks b (insidePoint b)) : ∃ first, firstChild blocks b = some first := by
  rw [firstChild, if_pos hb, nearest_eq_argmin, ← Option.ne_none_iff_exists', ne_eq,
    List.argmin_eq_none]
  exact List.ne_nil_of_mem hc

/-- No block of a stack stands in the mouth of another one. One further up does not, and one further
down stands below the body, which is at least as high as a block. -/
theorem not_near_inside {blocks : List Block} {head b c : Block} (hhead : head ∈ blocks)
    (hreach : ∀ b ∈ stack blocks head, b.position.y.abs ≤ reach) (hb : b ∈ stack blocks head)
    (hc : c ∈ stack blocks head) (hne : c.id ≠ b.id) (hwrap : b.shape = .wrap)
    (hcan : c.canFollow = true) : c.position.near (insidePoint b) stackTolerance = false := by
  have hw := stack_walked hhead
  have hdown := hw.descends hreach
  by_contra hnear
  rw [Bool.not_eq_false] at hnear
  obtain ⟨hlow, hhigh⟩ := depth_of_near_inside (hreach b hb) (hreach c hc) hnear
  obtain ⟨first, hfirst⟩ := exists_firstChild hwrap
    (mem_candidates.mpr ⟨hw.subset hhead hc, hne, hcan, hnear⟩)
  obtain ⟨l₁, l₂, hl⟩ := List.append_of_mem hb
  rw [hl, List.pairwise_append, List.pairwise_cons] at hdown
  rw [hl, List.mem_append, List.mem_cons] at hc
  rcases hc with hc | rfl | hc
  · have habove := hdown.2.2 c hc b List.mem_cons_self
    linarith
  · exact hne rfl
  · obtain ⟨e, t, rfl⟩ := List.exists_cons_of_ne_nil (List.ne_nil_of_mem hc)
    have hnext := depth_of_successor (hreach b hb) hfirst (hw.successor_of_next hl)
    rcases List.mem_cons.mp hc with rfl | hc
    · linarith
    · have hbelow := (List.pairwise_cons.mp hdown.2.1.2).1 c hc
      linarith

@[simp]
theorem id_shift (b : Block) (d : Point) : (b.shift d).id = b.id :=
  rfl

theorem near_congr {p q p' q' : Point} (h : (p.sub q).same (p'.sub q') = true)
    (tolerance : Float) : p.near q tolerance = p'.near q' tolerance := by
  simp only [Point.same, Point.sub, Bool.and_eq_true] at h
  simp only [Point.near, Number.abs_congr h.1, Number.abs_congr h.2]

theorem distance_congr {p q p' q' : Point} (h : (p.sub q).same (p'.sub q') = true) :
    p.distance q = p'.distance q' := by
  simp only [Point.same, Point.sub, Bool.and_eq_true] at h
  exact Number.hypot_congr h.1 h.2

theorem argmin_map {α β γ : Type*} [LinearOrder γ] (f : α → β) {g : α → γ} {g' : β → γ}
    {l : List α} (h : ∀ a ∈ l, g' (f a) = g a) :
    (l.map f).argmin g' = (l.argmin g).map f := by
  induction l with
  | nil => rfl
  | cons a l ih =>
    have ih := ih fun b hb => h b (List.mem_cons_of_mem a hb)
    rw [List.map_cons, List.argmin_cons, List.argmin_cons, ih]
    cases hc : l.argmin g with
    | none => rfl
    | some c =>
      have hmem : c ∈ l := List.argmin_mem hc
      simp only [Option.map_some, h a List.mem_cons_self, h c (List.mem_cons_of_mem a hmem)]
      by_cases hlt : g c < g a
      · simp only [if_pos hlt, Option.map_some]
      · simp only [if_neg hlt, Option.map_some]

/-- The first of the least stays so where others are left out. -/
theorem argmin_filter {α γ : Type*} [LinearOrder γ] {g : α → γ} {p : α → Bool} {l : List α} {c : α}
    (h : l.argmin g = some c) (hc : p c = true) : (l.filter p).argmin g = some c := by
  induction l generalizing c with
  | nil => cases h
  | cons a l ih =>
    rw [List.argmin_cons] at h
    cases hmin : l.argmin g with
    | none =>
      rw [hmin] at h
      cases h
      rw [List.argmin_eq_none.mp hmin, List.filter_cons_of_pos hc]
      rfl
    | some m =>
      rw [hmin] at h
      simp only at h
      by_cases hlt : g m < g a
      · rw [if_pos hlt] at h
        cases h
        have hrest := ih hmin hc
        by_cases ha : p a = true
        · rw [List.filter_cons_of_pos ha, List.argmin_cons, hrest]
          simp only [if_pos hlt]
        · rw [List.filter_cons_of_neg ha, hrest]
      · rw [if_neg hlt] at h
        cases h
        rw [List.filter_cons_of_pos hc, List.argmin_cons]
        cases hrest : (l.filter p).argmin g with
        | none => rfl
        | some e =>
          have hmem : e ∈ l := List.mem_of_mem_filter (List.argmin_mem hrest)
          have hle := List.le_of_mem_argmin hmem hmin
          simp only [if_neg (not_lt.mpr ((not_lt.mp hlt).trans hle))]

/-- Only the blocks that have moved are found where no other block is near. -/
theorem nearest_dragged {blocks : List Block} {ids : List String} {d : Point} {b : Block}
    {expected : Point}
    (hfar : ∀ c ∈ blocks, c.id ∉ ids → c.position.near expected stackTolerance = false) :
    nearest (dragged blocks ids d) b expected =
      nearest ((part blocks ids).map (·.shift d)) b expected := by
  have hcand : candidates (dragged blocks ids d) b expected =
      candidates ((part blocks ids).map (·.shift d)) b expected := by
    simp only [candidates, dragged, part]
    induction blocks with
    | nil => rfl
    | cons c blocks ih =>
      have ih := ih fun e he => hfar e (List.mem_cons_of_mem c he)
      by_cases hc : c.id ∈ ids
      · have hin : ids.contains c.id = true := by simpa using hc
        rw [List.map_cons, if_pos hin, List.filter_cons, List.filter_cons, if_pos hin,
          List.map_cons, List.filter_cons, ih]
      · have hout : ids.contains c.id = false := by simpa using hc
        have hnear := hfar c List.mem_cons_self hc
        rw [List.map_cons, hout, if_neg Bool.false_ne_true, List.filter_cons, hnear, Bool.and_false,
          if_neg Bool.false_ne_true, List.filter_cons, hout, if_neg Bool.false_ne_true, ih]
  rw [nearest, nearest, hcand]

theorem nearest_shift {blocks : List Block} {d : Point} {b : Block} {expected expected' : Point}
    (h : ∀ c ∈ blocks,
      ((c.shift d).position.sub expected').same (c.position.sub expected) = true) :
    nearest (blocks.map (·.shift d)) (b.shift d) expected' =
      (nearest blocks b expected).map (·.shift d) := by
  have hcand : candidates (blocks.map (·.shift d)) (b.shift d) expected' =
      (candidates blocks b expected).map (·.shift d) := by
    rw [candidates, candidates, List.filter_map]
    congr 1
    apply List.filter_congr
    intro c hc
    rw [Function.comp_apply, near_congr (h c hc) stackTolerance]
    rfl
  rw [nearest_eq_argmin, nearest_eq_argmin, hcand]
  apply argmin_map
  intro c hc
  rw [remoteness, remoteness, distance_congr (h c (List.mem_of_mem_filter hc))]

/-- The blocks `l` move by `d` without distortion: not too far, and rounding changes none of the
offsets by which they are looked for. -/
structure Undistorted (l : List Block) (d : Point) : Prop where
  high : ∀ b ∈ l, b.position.y.abs ≤ reach
  wide : ∀ b ∈ l, (b.shift d).position.x.abs ≤ reach
  inside : ∀ b ∈ l, ∀ c ∈ l,
    ((c.shift d).position.sub (insidePoint (b.shift d))).same
      (c.position.sub (insidePoint b)) = true
  below : ∀ b ∈ l, ∀ c ∈ l,
    ((c.shift d).position.sub (bareBottom (b.shift d))).same (c.position.sub (bareBottom b)) = true

/-- Whether the coordinates of `p` are whole numbers up to `2 ^ 50`. -/
def Whole (p : Point) : Prop :=
  ∃ j k : ℤ, IsWhole p.x j (2 ^ 50) ∧ IsWhole p.y k (2 ^ 50)

theorem isWhole_bareHeight (b : Block) : ∃ h : ℤ, IsWhole (bareHeight b) h 76 := by
  rw [bareHeight, heightWith]
  cases b.shape with
  | wrap =>
    refine ⟨76, ?_, by norm_num⟩
    exact Number.value_positive (m := 76 * 2 ^ 46) (e := -46) (by norm_num) rfl (by norm_num)
  | hat | stack | reporter => exact ⟨40, by exact_mod_cast value_blockHeight, by norm_num⟩

theorem abs_le_reach {x : Float} {k n : ℤ} (h : IsWhole x k n) (hn : n ≤ 2 ^ 52) :
    x.abs ≤ reach :=
  (Number.abs_le_of_value h.value value_reach).mpr (by exact_mod_cast h.le.trans hn)

/-- Blocks at whole numbers that are not too large move without distortion. -/
theorem undistorted_of_whole {l : List Block} {p q : Point} (hl : ∀ b ∈ l, Whole b.position)
    (hp : Whole p) (hq : Whole q) : Undistorted l (p.sub q) := by
  obtain ⟨px, py, hpx, hpy⟩ := hp
  obtain ⟨qx, qy, hqx, hqy⟩ := hq
  have hdx := hpx.sub hqx (by norm_num)
  have hdy := hpy.sub hqy (by norm_num)
  have hindent : IsWhole indent 20 20 := ⟨by exact_mod_cast value_indent, by norm_num⟩
  have hhead : IsWhole headHeight 36 36 := ⟨by exact_mod_cast value_headHeight, by norm_num⟩
  -- Every sum is exact, so what moves along cancels out.
  refine ⟨fun b hb => ?_, fun b hb => ?_, fun b hb c hc => ?_, fun b hb c hc => ?_⟩
  · obtain ⟨-, k, -, hy⟩ := hl b hb
    exact abs_le_reach hy (by norm_num)
  · obtain ⟨j, -, hx, -⟩ := hl b hb
    exact abs_le_reach (hx.add hdx (by norm_num)) (by norm_num)
  · obtain ⟨j, k, hx, hy⟩ := hl b hb
    obtain ⟨j', k', hx', hy'⟩ := hl c hc
    have hafter := (hx'.add hdx (by norm_num)).sub
      ((hx.add hdx (by norm_num)).add hindent (by norm_num)) (by norm_num)
    have hafter' := (hy'.add hdy (by norm_num)).sub
      ((hy.add hdy (by norm_num)).add hhead (by norm_num)) (by norm_num)
    have hbefore := hx'.sub (hx.add hindent (by norm_num)) (by norm_num)
    have hbefore' := hy'.sub (hy.add hhead (by norm_num)) (by norm_num)
    simp only [Point.same, Bool.and_eq_true]
    exact ⟨hafter.beq hbefore (by ring), hafter'.beq hbefore' (by ring)⟩
  · obtain ⟨j, k, hx, hy⟩ := hl b hb
    obtain ⟨j', k', hx', hy'⟩ := hl c hc
    obtain ⟨h, hheight⟩ := isWhole_bareHeight b
    have hafter := (hx'.add hdx (by norm_num)).sub (hx.add hdx (by norm_num)) (by norm_num)
    have hafter' := (hy'.add hdy (by norm_num)).sub
      ((hy.add hdy (by norm_num)).add hheight (by norm_num)) (by norm_num)
    have hbefore := hx'.sub hx (by norm_num)
    have hbefore' := hy'.sub (hy.add hheight (by norm_num)) (by norm_num)
    simp only [Point.same, Bool.and_eq_true]
    exact ⟨hafter.beq hbefore (by ring), hafter'.beq hbefore' (by ring)⟩

section

variable {blocks : List Block} {head : Block} {d : Point} (hids : (blocks.map (·.id)).Nodup)
  (hhead : head ∈ blocks)

include hids hhead

theorem mem_part_stack {c : Block} :
    c ∈ part blocks ((stack blocks head).map (·.id)) ↔ c ∈ stack blocks head := by
  have hsub := (stack_walked hhead).subset hhead
  simp only [part, List.mem_filter, List.contains_iff_mem]
  constructor
  · rintro ⟨hc, hid⟩
    obtain ⟨e, he, hid⟩ := List.mem_map.mp hid
    exact List.inj_on_of_nodup_map hids (hsub he) hc hid ▸ he
  · exact fun hc => ⟨hsub hc, List.mem_map_of_mem hc⟩

/-- A block with nothing inside that has a next one in the stack finds it in the stack alone. -/
theorem follower_part {l₁ l₂ : List Block} {b c : Block}
    (hl : stack blocks head = l₁ ++ b :: c :: l₂) (hempty : firstChild blocks b = none) :
    follower (part blocks ((stack blocks head).map (·.id))) b (bareHeight b) = some c := by
  have hs := (stack_walked hhead).successor_of_next hl
  have hc : c ∈ part blocks ((stack blocks head).map (·.id)) :=
    (mem_part_stack hids hhead).mpr (by simp [hl])
  have hshape := shape_of_successor hs
  rw [successor, height_of_firstChild_none hempty, follower, if_neg hshape,
    nearest_eq_argmin] at hs
  rw [follower, if_neg hshape, nearest_eq_argmin]
  have hfilter := argmin_filter (p := fun c => ((stack blocks head).map (·.id)).contains c.id) hs
    (List.mem_filter.mp hc).2
  rw [candidates, List.filter_filter] at hfilter
  rw [candidates, part, List.filter_filter]
  simp only [Bool.and_comm] at hfilter ⊢
  exact hfilter

variable (hform : Undistorted (stack blocks head) d)
  (haside : ∀ c ∈ blocks, c.id ∉ (stack blocks head).map (·.id) → ∀ b ∈ stack blocks head,
    Aside c (b.shift d))

include hform haside

/-- After the move every block of the stack is empty. -/
theorem firstChild_dragged {b : Block} (hb : b ∈ stack blocks head) :
    firstChild (dragged blocks ((stack blocks head).map (·.id)) d) (b.shift d) = none := by
  by_cases hwrap : b.shape = .wrap
  · have hpart := fun c => (mem_part_stack hids hhead (c := c)).mp
    have hnone : candidates (part blocks ((stack blocks head).map (·.id))) b (insidePoint b) =
        [] := by
      rw [List.eq_nil_iff_forall_not_mem]
      intro c hc
      obtain ⟨hmem, hne, hcan, hnear⟩ := mem_candidates.mp hc
      rw [not_near_inside hhead hform.high hb (hpart c hmem) hne hwrap hcan] at hnear
      cases hnear
    have hfar := fun c hc hout => (haside c hc hout b hb).not_near_inside (hform.wide b hb)
    rw [firstChild, if_pos (show (b.shift d).shape = .wrap from hwrap), nearest_dragged hfar,
      nearest_shift fun c hc => hform.inside b hb c (hpart c hc), nearest_eq_argmin, hnone]
    rfl
  · rw [firstChild, if_neg (show ¬ (b.shift d).shape = .wrap from hwrap)]

theorem successor_dragged {b : Block} (hb : b ∈ stack blocks head) :
    successor (dragged blocks ((stack blocks head).map (·.id)) d) (b.shift d) =
      (follower (part blocks ((stack blocks head).map (·.id))) b (bareHeight b)).map
        (·.shift d) := by
  rw [successor, height_of_firstChild_none (firstChild_dragged hids hhead hform haside hb),
    follower, follower]
  by_cases hshape : b.shape = .reporter
  · rw [if_pos hshape, if_pos (show (b.shift d).shape = .reporter from hshape)]
    rfl
  · have hfar := fun c hc hout => (haside c hc hout b hb).not_near_below
      ((b.shift d).position.y + bareHeight (b.shift d))
    rw [if_neg hshape, if_neg (show ¬ (b.shift d).shape = .reporter from hshape),
      nearest_dragged hfar]
    exact nearest_shift fun c hc => hform.below b hb c ((mem_part_stack hids hhead).mp hc)

end

/-- A walk ends at a block whose successor, if it has one, has been passed. -/
theorem Walked.last {blocks : List Block} {ids : List String} {b : Block} (h : b.id ∉ ids)
    (hs : ∀ c ∈ successor blocks b, c.id ∈ b.id :: ids) : Walked blocks ids b [b] := by
  cases hc : successor blocks b with
  | none => exact .bottom h hc
  | some c => exact .down h hc (.passed (hs c hc))

/-- Where every block of a walk but the last is followed by the next one after a move as well, and
the last one by none that has not been passed, the walk moves along. -/
theorem Walked.shifted {blocks blocks' l : List Block} {ids : List String} {b : Block} {d : Point}
    (h : Walked blocks ids b l)
    (hnext : ∀ l₁ b c l₂, l = l₁ ++ b :: c :: l₂ → successor blocks' (b.shift d) = some (c.shift d))
    (hlast : ∀ b ∈ l, ∀ c ∈ successor blocks' (b.shift d), c.id ∈ l.map (·.id) ++ ids) :
    Walked blocks' ids (b.shift d) (l.map (·.shift d)) := by
  induction h with
  | passed h => exact .passed h
  | @bottom ids b h hs =>
    exact .last h fun c hc => by simpa using hlast b List.mem_cons_self c hc
  | @down ids b c l h hs hl ih =>
    rcases hl.head with ⟨-, rfl⟩ | ⟨t, rfl⟩
    · exact .last h fun c hc => by simpa using hlast b List.mem_cons_self c hc
    · refine .down h (hnext [] b c t rfl) (ih (fun l₁ e f l₂ hl => ?_) fun e he f hf => ?_)
      · exact hnext (b :: l₁) e f l₂ (by rw [hl, List.cons_append])
      · have hmem := hlast e (List.mem_cons_of_mem b he) f hf
        simp only [List.map_cons, List.cons_append, List.mem_cons, List.mem_append] at hmem ⊢
        tauto

theorem ids_dragged (blocks : List Block) (ids : List String) (d : Point) :
    (dragged blocks ids d).map (·.id) = blocks.map (·.id) :=
  Script.ids_moveStack ⟨blocks, 0⟩ ids d

theorem shift_mem_dragged {blocks : List Block} {head b : Block} (hhead : head ∈ blocks)
    (hb : b ∈ stack blocks head) (d : Point) :
    b.shift d ∈ dragged blocks ((stack blocks head).map (·.id)) d := by
  refine List.mem_map.mpr ⟨b, (stack_walked hhead).subset hhead hb, if_pos ?_⟩
  exact List.contains_iff_mem.mpr (List.mem_map_of_mem hb)

theorem eq_of_ids {blocks l l' : List Block} (hids : (blocks.map (·.id)).Nodup) (hl : l ⊆ blocks)
    (hl' : l' ⊆ blocks) (h : l.map (·.id) = l'.map (·.id)) : l = l' := by
  induction l generalizing l' with
  | nil =>
    cases l' with
    | nil => rfl
    | cons => cases h
  | cons b l ih =>
    cases l' with
    | nil => cases h
    | cons b' l' =>
      obtain ⟨hb, hl⟩ := List.cons_subset.mp hl
      obtain ⟨hb', hl'⟩ := List.cons_subset.mp hl'
      obtain ⟨hid, h⟩ := List.cons.inj h
      rw [List.inj_on_of_nodup_map hids hb hb' hid, ih hl hl' h]

section

variable {blocks : List Block} {head : Block} {d : Point} (hids : (blocks.map (·.id)).Nodup)
  (hhead : head ∈ blocks) (hform : Undistorted (stack blocks head) d)
  (haside : ∀ c ∈ blocks, c.id ∉ (stack blocks head).map (·.id) → ∀ b ∈ stack blocks head,
    Aside c (b.shift d))

include hids hhead hform haside

/-- The stack stays together if and only if every block of it finds the next one when it is measured
as empty. -/
theorem stack_dragged_iff :
    (stack (dragged blocks ((stack blocks head).map (·.id)) d) (head.shift d)).map (·.id) =
        (stack blocks head).map (·.id) ↔
      ∀ l₁ b c l₂, stack blocks head = l₁ ++ b :: c :: l₂ →
        follower (part blocks ((stack blocks head).map (·.id))) b (bareHeight b) = some c := by
  have hw := stack_walked hhead
  have hmem' := shift_mem_dragged hhead (mem_stack_self head) d
  have hw' := stack_walked hmem'
  have hsuccessor {b : Block} (hb : b ∈ stack blocks head) :=
    successor_dragged hids hhead hform haside hb
  constructor
  · intro hsame l₁ b c l₂ hl
    have hb : b ∈ stack blocks head := by simp [hl]
    have hc : c ∈ stack blocks head := by simp [hl]
    -- Blocks of one id are one block, so the stack afterwards is the stack before, moved.
    have hmoved : stack (dragged blocks ((stack blocks head).map (·.id)) d) (head.shift d) =
        (stack blocks head).map (·.shift d) := by
      apply eq_of_ids (ids_dragged blocks _ d ▸ hids) (hw'.subset hmem')
      · intro e he
        obtain ⟨f, hf, rfl⟩ := List.mem_map.mp he
        exact shift_mem_dragged hhead hf d
      · rw [hsame, List.map_map]
        rfl
    have hl' : stack (dragged blocks ((stack blocks head).map (·.id)) d) (head.shift d) =
        l₁.map (·.shift d) ++ b.shift d :: c.shift d :: l₂.map (·.shift d) := by
      rw [hmoved, hl, List.map_append, List.map_cons, List.map_cons]
    have hs := hw'.successor_of_next hl'
    rw [hsuccessor hb] at hs
    obtain ⟨e, he, heq⟩ := Option.map_eq_some_iff.mp hs
    have hid : e.id = c.id := congrArg (·.id) heq
    have hmem := (mem_part_stack hids hhead).mp (mem_of_follower he).1
    rw [he, List.inj_on_of_nodup_map hids (hw.subset hhead hmem) (hw.subset hhead hc) hid]
  · intro hnext
    have hshifted : Walked (dragged blocks ((stack blocks head).map (·.id)) d) [] (head.shift d)
        ((stack blocks head).map (·.shift d)) := by
      apply hw.shifted
      · intro l₁ b c l₂ hl
        rw [hsuccessor (by simp [hl]), hnext l₁ b c l₂ hl]
        rfl
      · intro b hb c hc
        rw [hsuccessor hb] at hc
        obtain ⟨e, he, rfl⟩ := Option.map_eq_some_iff.mp hc
        have hmem := (mem_part_stack hids hhead).mp (mem_of_follower he).1
        exact List.mem_append_left _ (List.mem_map.mpr ⟨e, hmem, rfl⟩)
    rw [← hshifted.unique hw', List.map_map]
    rfl

end

end BlockScript.Layout

import BlockScript.Proofs.Layout.Newcomer
import BlockScript.Proofs.Script.Distinct

/-! Placing a block. The links between the other blocks stay as they are but for those that the new
block takes over, and a wrap block grows only if the new block is found while its body is measured.
A block that snaps attaches, unless another block stands exactly where it snaps to. Nothing is
pushed out of the way: a block may grow past what stood below it, and a snapped block may end up on
top of another one. -/

namespace BlockScript

open Layout (Takes nearest candidates firstChild successor height stack body insidePoint bottomPoint
  bodyLookups measuredNesting stackTolerance)

namespace Snap

theorem of_foldl_closer {p : Point} {l : List Snap} {best : Option (Snap × Float)} {t : Snap}
    {d : Float} (h : l.foldl (closer p) best = some (t, d)) :
    (t ∈ l ∧ ∃ limit, p.distance t.position < limit) ∨ best = some (t, d) := by
  induction l generalizing best with
  | nil => exact .inr h
  | cons t' l ih =>
    rcases ih h with ⟨hmem, hlimit⟩ | hstep
    · exact .inl ⟨List.mem_cons_of_mem _ hmem, hlimit⟩
    · unfold closer at hstep
      extract_lets distance limit at hstep
      by_cases hlt : distance < limit
      · rw [if_pos hlt] at hstep
        obtain ⟨rfl, -⟩ := Prod.mk.inj (Option.some.inj hstep)
        exact .inl ⟨List.mem_cons_self, _, hlt⟩
      · rw [if_neg hlt] at hstep
        exact .inr hstep

/-- What a snap says: its target is a block of the script, it stands at the bottom or in the free
mouth of the target, and that is a point with finite coordinates. -/
structure Sound (blocks : List Block) (shape : Shape) (t : Snap) (b : Block) : Prop where
  follows : shape = .stack ∨ shape = .wrap
  mem : b ∈ blocks
  target : t.target = b.id
  finite : Layout.Finite t.position
  bottom : t.attachment = .bottom → b.shape ≠ .reporter ∧ t.position = bottomPoint blocks b
  inside : t.attachment = .inside → b.shape = .wrap ∧ t.position = insidePoint b ∧
    ∀ c ∈ blocks, c.position.near (insidePoint b) occupancyTolerance = false

theorem finite_of_distance_lt {p q : Point} {limit : Float} (h : p.distance q < limit) :
    Layout.Finite q := by
  obtain ⟨d, e, hd, he⟩ := Number.exists_value_of_hypot_lt h
  obtain ⟨-, v, -, hv⟩ := Number.exists_value_of_sub hd
  obtain ⟨-, w, -, hw⟩ := Number.exists_value_of_sub he
  exact ⟨v, w, hv, hw⟩

theorem sound_of_find {blocks : List Block} {shape : Shape} {p : Point} {t : Snap}
    (h : find? blocks shape p [] = some t) : ∃ b, Sound blocks shape t b := by
  have hshape : shape = .stack ∨ shape = .wrap := by
    cases shape with
    | hat | reporter => cases h
    | stack => exact .inl rfl
    | wrap => exact .inr rfl
  have hfold : ((attachments blocks []).foldl (closer p) none).map Prod.fst = some t := by
    rcases hshape with rfl | rfl <;> exact h
  obtain ⟨⟨t', d⟩, hd, rfl⟩ := Option.map_eq_some_iff.mp hfold
  rcases of_foldl_closer hd with ⟨hmem, limit, hlt⟩ | hnone
  · obtain ⟨b, hb, hoffer⟩ := List.mem_flatMap.mp hmem
    have hb := List.mem_of_mem_filter hb
    have hfinite := finite_of_distance_lt hlt
    refine ⟨b, ?_⟩
    rcases List.mem_append.mp hoffer with hbottom | hinside
    · split at hbottom
      · cases hbottom
      · rename_i hb'
        cases List.mem_singleton.mp hbottom
        exact ⟨hshape, hb, rfl, hfinite, fun _ => ⟨hb', rfl⟩, nofun⟩
    · split at hinside
      · rename_i hb'
        cases List.mem_singleton.mp hinside
        simp only [isOccupied, Bool.and_eq_true, decide_eq_true_eq, Bool.not_eq_true',
          List.any_eq_false, List.contains_nil, Bool.not_false, Bool.true_and,
          Bool.not_eq_true] at hb'
        exact ⟨hshape, hb, rfl, hfinite, nofun, fun _ => ⟨hb'.1, rfl, hb'.2⟩⟩
      · cases hinside
  · cases hnone

theorem value_occupancyTolerance :
    Number.value? occupancyTolerance.toModel.unpack = some 10 :=
  Number.value_positive (m := 10 * 2 ^ 49) (e := -49) (by norm_num) rfl (by norm_num)

theorem find_eq_of_fields {blocks : List Block} {shape : Shape} {drop : Point} {target : String}
    {attachment : Attachment} {position : Point}
    (h : (find? blocks shape drop []).map (fun t => (t.target, t.attachment, t.position)) =
      some (target, attachment, position)) :
    find? blocks shape drop [] = some ⟨target, attachment, position⟩ := by
  obtain ⟨snap, hsnap, he⟩ := Option.map_eq_some_iff.mp h
  rw [hsnap]
  cases he
  rfl

end Snap

namespace Script

theorem get?_of_mem {s : Script} (hids : s.ids.Nodup) {b : Block} (hb : b ∈ s.blocks) :
    s.get? b.id = some b := by
  cases hc : s.get? b.id with
  | none => exact absurd (List.mem_map_of_mem hb) ((get?_eq_none_iff s b.id).mp hc)
  | some c =>
    have hid : c.id = b.id := by simpa using List.find?_some hc
    rw [List.inj_on_of_nodup_map hids (List.mem_of_find?_eq_some hc) hb hid]

theorem blocks_place (s : Script) (kind : BlockKind) (p : Point) (overrides : Table Param) :
    (s.place kind p overrides).1.blocks = s.blocks ++ [(s.place kind p overrides).2] :=
  rfl

/-- Placing a block leaves a block linked to what it was linked to, unless the new block is nearer
to where that block is looked for. Below a wrap block this holds as long as its height stays, and it
stays unless the new block is found while the body is measured. -/
theorem place_keeps_links (s : Script) (kind : BlockKind) (drop : Point) (overrides : Table Param)
    {p q : Block} (hp : p ∈ s.blocks) :
    let n := (s.place kind drop overrides).2
    let blocks := (s.place kind drop overrides).1.blocks
    (firstChild s.blocks p = some q →
      if Takes s.blocks n p (insidePoint p) then firstChild blocks p = some n
      else firstChild blocks p = some q ∧ q ∈ body blocks p) ∧
    (successor s.blocks p = some q → height blocks p = height s.blocks p →
      if Takes s.blocks n p (bottomPoint s.blocks p) then successor blocks p = some n
      else successor blocks p = some q ∧ q ∈ stack blocks p) ∧
    (successor s.blocks p = some q →
      q.position.near (bottomPoint blocks p) stackTolerance = true →
      (∀ c ∈ candidates blocks p (bottomPoint blocks p), c ≠ q →
        q.position.distance (bottomPoint blocks p) < c.position.distance (bottomPoint blocks p)) →
      successor blocks p = some q ∧ q ∈ stack blocks p) ∧
    ((∀ l ∈ bodyLookups s.blocks measuredNesting p, ¬ Takes s.blocks n l.1 l.2) →
      height blocks p = height s.blocks p) ∧
    (n.canFollow = false →
      firstChild blocks p = firstChild s.blocks p ∧ successor blocks p = successor s.blocks p ∧
      stack blocks p = stack s.blocks p ∧ body blocks p = body s.blocks p) := by
  intro n blocks
  have hblocks : blocks = s.blocks ++ [n] := blocks_place s kind drop overrides
  rw [hblocks]
  refine ⟨fun hq => ?_, fun hq hheight => ?_, fun hq hnear hless => ?_, Layout.height_snoc,
    fun hn => ?_⟩
  · have hchild := Layout.firstChild_snoc s.blocks n (Layout.shape_of_firstChild hq)
    split_ifs at hchild ⊢
    · exact hchild
    · rw [hq] at hchild
      exact ⟨hchild, Layout.mem_body_of_firstChild hchild⟩
  · have hbelow := Layout.successor_snoc (Layout.shape_of_successor hq) hheight
    split_ifs at hbelow ⊢
    · exact hbelow
    · rw [hq] at hbelow
      exact ⟨hbelow, Layout.mem_stack_of_successor hbelow⟩
  · have hcan : q ∈ candidates (s.blocks ++ [n]) p (bottomPoint (s.blocks ++ [n]) p) := by
      have hbefore := hq
      rw [successor, Layout.follower, if_neg (Layout.shape_of_successor hq)] at hbefore
      obtain ⟨hmem, hid, hfollow, -⟩ :=
        Layout.mem_candidates.mp (Layout.mem_candidates_of_nearest hbefore)
      exact Layout.mem_candidates.mpr ⟨List.mem_append_left _ hmem, hid, hfollow, hnear⟩
    have hbelow : successor (s.blocks ++ [n]) p = some q := by
      rw [successor, Layout.follower, if_neg (Layout.shape_of_successor hq)]
      exact Layout.nearest_eq_of_forall_lt hcan hless
    exact ⟨hbelow, Layout.mem_stack_of_successor hbelow⟩
  · obtain ⟨hchild, -, hbelow, hstack, hbody⟩ :=
      Layout.structure_snoc hp (Layout.not_takes_of_not_canFollow hn)
    exact ⟨hchild, hbelow, hstack, hbody⟩

/-- A link is known by the ids of the blocks it links. -/
theorem eq_some_of_id {s : Script} (hids : s.ids.Nodup) {found : Option Block} {q : Block}
    (hfound : ∀ c ∈ found, c ∈ s.blocks) (hq : q ∈ s.blocks)
    (h : found.map (·.id) = some q.id) : found = some q := by
  obtain ⟨c, rfl, hid⟩ := Option.map_eq_some_iff.mp h
  rw [List.inj_on_of_nodup_map hids (hfound c rfl) hq hid]

/-- A loop around one block, with another block below. -/
def shortLoop : Script :=
  ⟨[.create "loop" .repeatTimes ⟨0, 0⟩, .create "in" .moveSteps ⟨20, 36⟩,
    .create "tail" .hideSprite ⟨0, 92⟩], 0⟩

/-- A block with another one not quite below it. -/
def loosePair : Script :=
  ⟨[.create "top" .moveSteps ⟨0, 0⟩, .create "below" .hideSprite ⟨5, 45⟩], 0⟩

/-- A loop with a block at the edge of its mouth. -/
def looseMouth : Script :=
  ⟨[.create "loop" .repeatTimes ⟨0, 0⟩, .create "in" .moveSteps ⟨30, 46⟩], 0⟩

/-- A loop around one block that stands a little to the left. -/
def leftLoop : Script :=
  ⟨[.create "loop" .repeatTimes ⟨0, 0⟩, .create "in" .moveSteps ⟨10, 36⟩], 0⟩

/-- What is looked up in these scripts, before a block is placed and after: the links, the blocks
that go missing from a stack or a body, the block to snap to, and what the new block takes. -/
theorem sample_lookups :
    let loop : Block := .create "loop" .repeatTimes ⟨0, 0⟩
    let top : Block := .create "top" .moveSteps ⟨0, 0⟩
    let tail : Block := .create "tail" .hideSprite ⟨0, 92⟩
    let snapOf (s : Script) (drop : Point) :=
      (Snap.find? s.blocks BlockKind.showSprite.shape drop []).map
        fun t => (t.target, t.attachment, t.position)
    let new (s : Script) (drop : Point) : Block := (s.place .showSprite drop []).2
    let after (s : Script) (drop : Point) : List Block := (s.place .showSprite drop []).1.blocks
    ((successor shortLoop.blocks loop).map (·.id) = some "tail" ∧
      (successor loosePair.blocks top).map (·.id) = some "below" ∧
      (firstChild looseMouth.blocks loop).map (·.id) = some "in") ∧
    ("tail" ∉ (stack (after shortLoop ⟨20, 76⟩) loop).map (·.id) ∧
      "below" ∉ (stack (after loosePair ⟨0, 40⟩) top).map (·.id) ∧
      "in" ∉ (body (after looseMouth ⟨20, 36⟩) loop).map (·.id)) ∧
    (snapOf shortLoop ⟨3, 135⟩ = some ("tail", .bottom, ⟨0, 132⟩) ∧
      snapOf shortLoop ⟨3, 92⟩ = some ("loop", .bottom, ⟨0, 92⟩) ∧
      snapOf leftLoop ⟨0, 92⟩ = some ("loop", .bottom, ⟨0, 92⟩)) ∧
    ((∀ l ∈ bodyLookups shortLoop.blocks measuredNesting loop,
        ¬ Takes shortLoop.blocks (new shortLoop ⟨3, 135⟩) l.1 l.2) ∧
      ¬ Takes shortLoop.blocks (new shortLoop ⟨3, 135⟩) loop (bottomPoint shortLoop.blocks loop) ∧
      (∀ c ∈ shortLoop.blocks, c.id ≠ tail.id → c.canFollow = true →
        c.position.same ⟨0, 132⟩ = false)) ∧
    ((successor (after shortLoop ⟨3, 92⟩) loop).map (·.id) = some "tail" ∧
      (new shortLoop ⟨3, 92⟩).id ≠ "tail" ∧
      (∀ c ∈ leftLoop.blocks, c.position.same ⟨0, 92⟩ = false) ∧
      (successor (after leftLoop ⟨0, 92⟩) loop).map (·.id) = none) := by
  decide +kernel

theorem successor_shortLoop : successor shortLoop.blocks (.create "loop" .repeatTimes ⟨0, 0⟩) =
    some (.create "tail" .hideSprite ⟨0, 92⟩) := by
  apply eq_some_of_id (show shortLoop.ids.Nodup by decide)
  · exact fun c hc => (Layout.near_of_successor hc).1
  · simp [shortLoop]
  · exact sample_lookups.1.1

theorem place_keeps_links_short_loop :
    let loop : Block := .create "loop" .repeatTimes ⟨0, 0⟩
    let tail : Block := .create "tail" .hideSprite ⟨0, 92⟩
    let after := (shortLoop.place .showSprite ⟨3, 135⟩ []).1.blocks
    loop ∈ shortLoop.blocks ∧ successor shortLoop.blocks loop = some tail ∧
      height after loop = height shortLoop.blocks loop ∧
      successor after loop = some tail ∧ tail ∈ stack after loop := by
  intro loop tail after
  have hloop : loop ∈ shortLoop.blocks := List.mem_cons_self
  obtain ⟨-, hbelow, -, hheight, -⟩ := place_keeps_links shortLoop .showSprite ⟨3, 135⟩ [] hloop
  obtain ⟨-, -, -, ⟨hbody, hfree, -⟩, -⟩ := sample_lookups
  have hheight := hheight hbody
  have hbelow := hbelow successor_shortLoop hheight
  rw [if_neg hfree] at hbelow
  exact ⟨hloop, successor_shortLoop, hheight, hbelow⟩

/-- A second block in a loop makes it grow past the block below it. A block that snaps takes the
place of one that stands near by, below a block as well as in the mouth of a loop. -/
theorem place_parts_blocks :
    (¬ ∀ (s : Script) (kind : BlockKind) (drop : Point) (p q : Block), s.ids.Nodup →
      p ∈ s.blocks → successor s.blocks p = some q →
      q ∈ stack (s.place kind drop []).1.blocks p) ∧
    (¬ ∀ (s : Script) (kind : BlockKind) (drop : Point) (p q : Block), s.ids.Nodup →
      p ∈ s.blocks → p.shape ≠ .wrap → successor s.blocks p = some q →
      q ∈ stack (s.place kind drop []).1.blocks p) ∧
    ¬ ∀ (s : Script) (kind : BlockKind) (drop : Point) (p q : Block), s.ids.Nodup →
      p ∈ s.blocks → firstChild s.blocks p = some q →
      q ∈ body (s.place kind drop []).1.blocks p := by
  obtain ⟨⟨-, hbelow, hin⟩, ⟨htailGone, hbelowGone, hinGone⟩, -⟩ := sample_lookups
  refine ⟨fun h => ?_, fun h => ?_, fun h => ?_⟩
  · have hstays := h shortLoop .showSprite ⟨20, 76⟩ _ _ (by decide) List.mem_cons_self
      successor_shortLoop
    exact htailGone (List.mem_map_of_mem hstays)
  · have hnext : successor loosePair.blocks (.create "top" .moveSteps ⟨0, 0⟩) =
        some (.create "below" .hideSprite ⟨5, 45⟩) := by
      apply eq_some_of_id (show loosePair.ids.Nodup by decide)
      · exact fun c hc => (Layout.near_of_successor hc).1
      · simp [loosePair]
      · exact hbelow
    have hstays := h loosePair .showSprite ⟨0, 40⟩ _ _ (by decide) List.mem_cons_self (by decide)
      hnext
    exact hbelowGone (List.mem_map_of_mem hstays)
  · have hchild : firstChild looseMouth.blocks (.create "loop" .repeatTimes ⟨0, 0⟩) =
        some (.create "in" .moveSteps ⟨30, 46⟩) := by
      apply eq_some_of_id (show looseMouth.ids.Nodup by decide)
      · exact fun c hc => Layout.mem_of_firstChild hc
      · simp [looseMouth]
      · exact hin
    have hstays := h looseMouth .showSprite ⟨20, 36⟩ _ _ (by decide) List.mem_cons_self hchild
    exact hinGone (List.mem_map_of_mem hstays)

/-- A block that snaps lands where it snaps to. In the mouth of its target it is the first of the
body. Below its target it is the successor, as long as the target keeps its height, unless another
block stands exactly there already: then the target keeps its successor. -/
theorem place_attaches {s : Script} (hids : s.ids.Nodup) {kind : BlockKind} {drop : Point}
    {snap : Snap} (hsnap : Snap.find? s.blocks kind.shape drop [] = some snap)
    (hfresh : blockId kind (s.lastNumber + 1) ≠ snap.target) (overrides : Table Param) :
    let n := (s.place kind drop overrides).2
    let blocks := (s.place kind drop overrides).1.blocks
    n.position = snap.position ∧ ∃ t, s.get? snap.target = some t ∧
      (snap.attachment = .inside → firstChild blocks t = some n) ∧
      (snap.attachment = .bottom → height blocks t = height s.blocks t →
        ((∀ c ∈ s.blocks, c.id ≠ t.id → c.canFollow = true →
            c.position.same snap.position = false) → successor blocks t = some n) ∧
        ((∃ c ∈ s.blocks, c.id ≠ t.id ∧ c.canFollow = true ∧
            c.position.same snap.position = true) → successor blocks t = successor s.blocks t)) ∧
      ((∀ l ∈ bodyLookups s.blocks measuredNesting t, ¬ Takes s.blocks n l.1 l.2) →
        height blocks t = height s.blocks t) := by
  intro n blocks
  obtain ⟨t, ht⟩ := Snap.sound_of_find hsnap
  have hposition : n.position = snap.position := by
    change Snap.landing s.blocks kind.shape drop [] = snap.position
    rw [Snap.landing, hsnap]
    rfl
  have hid : n.id ≠ t.id := ht.target ▸ hfresh
  have hcan : n.canFollow = true := by
    change (kind.shape == .stack || kind.shape == .wrap) = true
    rcases ht.follows with h | h <;> rw [h] <;> rfl
  have htakes : Takes s.blocks n t n.position ↔ _ :=
    Layout.takes_iff_of_exact (hposition ▸ ht.finite) hid hcan
  rw [hposition] at htakes
  have hblocks : blocks = s.blocks ++ [n] := blocks_place s kind drop overrides
  rw [hblocks]
  refine ⟨hposition, t, ht.target ▸ get?_of_mem hids ht.mem, fun hinside => ?_,
    fun hbottom hheight => ?_, Layout.height_snoc⟩
  · obtain ⟨hwrap, hpoint, hfree⟩ := ht.inside hinside
    rw [Layout.firstChild_snoc s.blocks n hwrap, ← hpoint]
    refine if_pos (htakes.mpr fun c hc _ _ => ?_)
    by_contra hsame
    rw [Bool.not_eq_false] at hsame
    have hnear := Layout.near_of_same ht.finite hsame Snap.value_occupancyTolerance (by norm_num)
    rw [hpoint, hfree c hc] at hnear
    cases hnear
  · obtain ⟨hshape, hpoint⟩ := ht.bottom hbottom
    rw [Layout.successor_snoc hshape hheight, ← hpoint]
    refine ⟨fun hfree => if_pos (htakes.mpr hfree), ?_⟩
    rintro ⟨c, hc, hne, hfollow, hsame⟩
    refine if_neg fun h => ?_
    rw [htakes.mp h c hc hne hfollow] at hsame
    cases hsame

theorem place_attaches_below_tail :
    let snap : Snap := ⟨"tail", .bottom, ⟨0, 132⟩⟩
    let n := (shortLoop.place .showSprite ⟨3, 135⟩ []).2
    let after := (shortLoop.place .showSprite ⟨3, 135⟩ []).1.blocks
    shortLoop.ids.Nodup ∧
      Snap.find? shortLoop.blocks BlockKind.showSprite.shape ⟨3, 135⟩ [] = some snap ∧
      blockId .showSprite 1 ≠ snap.target ∧
      ∃ t, shortLoop.get? "tail" = some t ∧ successor after t = some n := by
  intro snap n after
  obtain ⟨-, -, ⟨hfields, -⟩, ⟨-, -, hfree⟩, -⟩ := sample_lookups
  have hids : shortLoop.ids.Nodup := by decide
  have hsnap : Snap.find? shortLoop.blocks BlockKind.showSprite.shape ⟨3, 135⟩ [] = some snap :=
    Snap.find_eq_of_fields hfields
  have hfresh : blockId .showSprite 1 ≠ snap.target := by decide
  obtain ⟨-, t, ht, -, hbottom, hheight⟩ := place_attaches hids hsnap hfresh []
  have htail : t = .create "tail" .hideSprite ⟨0, 92⟩ := by
    cases ht
    rfl
  subst htail
  have hnew := (hbottom rfl (hheight (by decide))).1
  exact ⟨hids, hsnap, hfresh, _, ht, hnew hfree⟩

/-- Below the loop a block snaps on top of the one that stands there. Where there is none, it may
still be found below the body of the loop, which then grows past it. -/
theorem snapped_block_stays_apart :
    (¬ ∀ (s : Script) (kind : BlockKind) (drop : Point) (snap : Snap) (t : Block), s.ids.Nodup →
      Snap.find? s.blocks kind.shape drop [] = some snap → s.get? snap.target = some t →
      snap.attachment = .bottom →
      successor (s.place kind drop []).1.blocks t = some (s.place kind drop []).2) ∧
    ¬ ∀ (s : Script) (kind : BlockKind) (drop : Point) (snap : Snap) (t : Block), s.ids.Nodup →
      Snap.find? s.blocks kind.shape drop [] = some snap → s.get? snap.target = some t →
      snap.attachment = .bottom → (∀ c ∈ s.blocks, c.position.same snap.position = false) →
      successor (s.place kind drop []).1.blocks t = some (s.place kind drop []).2 := by
  obtain ⟨-, -, ⟨-, honTop, hbelow⟩, -, hold, hfresh, hapart, hnone⟩ := sample_lookups
  refine ⟨fun h => ?_, fun h => ?_⟩
  · have hnew := h shortLoop .showSprite ⟨3, 92⟩ ⟨"loop", .bottom, ⟨0, 92⟩⟩ _ (by decide)
      (Snap.find_eq_of_fields honTop) rfl rfl
    have hid := congrArg (Option.map Block.id) hnew
    exact hfresh (Option.some.inj (hid.symm.trans hold))
  · have hnew := h leftLoop .showSprite ⟨0, 92⟩ ⟨"loop", .bottom, ⟨0, 92⟩⟩ _ (by decide)
      (Snap.find_eq_of_fields hbelow) rfl rfl hapart
    have hid := congrArg (Option.map Block.id) hnew
    cases hnone.symm.trans hid

end Script

end BlockScript

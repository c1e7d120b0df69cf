import BlockScript.Proofs.Layout.Stack
import BlockScript.Proofs.Number.Rank

/-! The order of the blocks. A lookup takes the candidate of least distance, so where no two
candidates are equally distant it does not depend on the order in which the blocks are listed. The
structure is made of such lookups, and a list in another order has the same structure. -/

namespace BlockScript.Layout

/-- The distance of `b` from `expected`, as a rank. -/
def remoteness (expected : Point) (b : Block) : WithBotTop ℚ :=
  (Number.rank? (b.position.distance expected).toModel.unpack).getD ⊤

def Ranked (expected : Point) (b : Block) : Prop :=
  Number.rank? (b.position.distance expected).toModel.unpack = some (remoteness expected b)

theorem ranked_of_mem_candidates {blocks : List Block} {b c : Block} {expected : Point}
    (h : c ∈ candidates blocks b expected) : Ranked expected c := by
  simp only [candidates, List.mem_filter, Bool.and_eq_true, Point.near, decide_eq_true_eq] at h
  obtain ⟨-, -, hx, hy⟩ := h
  obtain ⟨v, hv, -⟩ := Number.exists_abs_lt value_stackTolerance hx
  obtain ⟨w, hw, -⟩ := Number.exists_abs_lt value_stackTolerance hy
  obtain ⟨p, hp⟩ := Number.hypot_rank hv hw
  rw [Ranked, remoteness, Point.distance, hp, Option.getD_some]

theorem foldl_nearer_eq_argAux {expected : Point} {l : List Block} (best : Option Block)
    (hl : ∀ c ∈ l, Ranked expected c) (hbest : ∀ c ∈ best, Ranked expected c) :
    (l.foldl (nearer expected) (best.map fun c => (c, c.position.distance expected))).map Prod.fst =
      l.foldl (List.argAux fun c d => remoteness expected c < remoteness expected d) best := by
  induction l generalizing best with
  | nil => cases best <;> rfl
  | cons c l ih =>
    have hc := hl c List.mem_cons_self
    have hrest : ∀ d ∈ l, Ranked expected d := fun d hd => hl d (List.mem_cons_of_mem c hd)
    rw [List.foldl_cons, List.foldl_cons]
    cases best with
    | none => exact ih (some c) hrest (by simpa using hc)
    | some d =>
      have hd := hbest d rfl
      have hle := Number.le_iff_rank hd hc
      by_cases h : remoteness expected d ≤ remoteness expected c
      · have hkeep : nearer expected (some (d, d.position.distance expected)) c =
            some (d, d.position.distance expected) := if_pos (hle.mpr h)
        have hkeep' : List.argAux (fun c d => remoteness expected c < remoteness expected d)
            (some d) c = some d := if_neg (not_lt.mpr h)
        rw [Option.map_some, hkeep, hkeep']
        exact ih (some d) hrest hbest
      · have htake : nearer expected (some (d, d.position.distance expected)) c =
            some (c, c.position.distance expected) := if_neg (mt hle.mp h)
        have htake' : List.argAux (fun c d => remoteness expected c < remoteness expected d)
            (some d) c = some c := if_pos (not_le.mp h)
        rw [Option.map_some, htake, htake']
        exact ih (some c) hrest (by simpa using hc)

/-- A lookup finds the first of the candidates that are least remote. -/
theorem nearest_eq_argmin (blocks : List Block) (b : Block) (expected : Point) :
    nearest blocks b expected = (candidates blocks b expected).argmin (remoteness expected) :=
  foldl_nearer_eq_argAux none (fun _ => ranked_of_mem_candidates) (by simp)

/-- No two different candidates of a lookup are equally distant. -/
def Clear (blocks : List Block) (b : Block) (expected : Point) : Prop :=
  ∀ c ∈ candidates blocks b expected, ∀ d ∈ candidates blocks b expected, c.id ≠ d.id →
    (c.position.distance expected == d.position.distance expected) = false

instance (blocks : List Block) (b : Block) (expected : Point) :
    Decidable (Clear blocks b expected) :=
  inferInstanceAs <| Decidable <| ∀ c ∈ candidates blocks b expected,
    ∀ d ∈ candidates blocks b expected, c.id ≠ d.id →
      (c.position.distance expected == d.position.distance expected) = false

theorem Clear.eq_of_remoteness {blocks : List Block} {b c d : Block} {expected : Point}
    (h : Clear blocks b expected) (hids : (blocks.map (·.id)).Nodup)
    (hc : c ∈ candidates blocks b expected) (hd : d ∈ candidates blocks b expected)
    (he : remoteness expected c = remoteness expected d) : c = d := by
  have heq : (c.position.distance expected == d.position.distance expected) = true :=
    (Number.beq_iff_rank (ranked_of_mem_candidates hc) (ranked_of_mem_candidates hd)).mpr he
  have hid : c.id = d.id := by
    by_contra hne
    rw [h c hc d hd hne] at heq
    cases heq
  exact List.inj_on_of_nodup_map hids (List.mem_of_mem_filter hc) (List.mem_of_mem_filter hd) hid

theorem nearest_perm {blocks blocks' : List Block} {b : Block} {expected : Point}
    (hperm : blocks.Perm blocks') (hids : (blocks.map (·.id)).Nodup)
    (h : Clear blocks b expected) : nearest blocks b expected = nearest blocks' b expected := by
  have hcand : (candidates blocks b expected).Perm (candidates blocks' b expected) :=
    hperm.filter _
  rw [nearest_eq_argmin, nearest_eq_argmin]
  cases hc : (candidates blocks b expected).argmin (remoteness expected) with
  | none =>
    have hnil := List.argmin_eq_none.mp hc
    rw [hnil, List.nil_perm] at hcand
    rw [hcand, List.argmin_nil]
  | some c =>
    cases hd : (candidates blocks' b expected).argmin (remoteness expected) with
    | none =>
      have hnil := List.argmin_eq_none.mp hd
      rw [hnil, List.perm_nil] at hcand
      rw [hcand] at hc
      cases hc
    | some d =>
      have hmem : c ∈ candidates blocks b expected := List.argmin_mem hc
      have hmem' : d ∈ candidates blocks b expected := hcand.mem_iff.mpr (List.argmin_mem hd)
      have hle : remoteness expected c ≤ remoteness expected d := List.le_of_mem_argmin hmem' hc
      have hge : remoteness expected d ≤ remoteness expected c :=
        List.le_of_mem_argmin (hcand.mem_iff.mp hmem) hd
      rw [h.eq_of_remoteness hids hmem hmem' (le_antisymm hle hge)]

/-- The lookup for the block inside `b`. -/
def childLookups (b : Block) : List (Block × Point) :=
  if b.shape = .wrap then [(b, insidePoint b)] else []

/-- The lookup for the block below `b` when `b` is `height` high. -/
def followerLookups (b : Block) (height : Float) : List (Block × Point) :=
  if b.shape = .reporter then [] else [(b, ⟨b.position.x, b.position.y + height⟩)]

/-- The lookups that measure the body of `b`: the one for its first block, and for each block of
the body those that measure it and the one for the block below. -/
def bodyLookups (blocks : List Block) : Nat → Block → List (Block × Point)
  | 0, _ => []
  | levels + 1, b =>
    childLookups b ++ match firstChild blocks b with
      | none => []
      | some first =>
        (walk blocks (heightWith (bodyHeightAt blocks levels)) (walkBound blocks) [b.id]
          first).flatMap fun c => bodyLookups blocks levels c.1 ++ followerLookups c.1 c.2

/-- The lookups for the body and the successor of `b`. -/
def lookups (blocks : List Block) (b : Block) : List (Block × Point) :=
  bodyLookups blocks measuredNesting b ++ followerLookups b (height blocks b)

theorem snd_of_mem_walk {blocks : List Block} {height : Block → Float} {n : Nat}
    {seen : List String} {b : Block} {c : Block × Float} (h : c ∈ walk blocks height n seen b) :
    c.2 = height c.1 := by
  induction n generalizing seen b with
  | zero => cases h
  | succ n ih =>
    rw [walk] at h
    by_cases hseen : b.id ∈ seen
    · rw [if_pos hseen] at h
      cases h
    · rw [if_neg hseen] at h
      rcases List.mem_cons.mp h with rfl | h
      · rfl
      · cases hf : follower blocks b (height b) with
        | none =>
          rw [hf] at h
          cases h
        | some d =>
          rw [hf] at h
          exact ih h

/-- Two walks that measure alike and find the same followers are the same. -/
theorem walk_congr {blocks blocks' : List Block} {height height' : Block → Float} {n : Nat}
    {seen : List String} {b : Block}
    (h : ∀ c ∈ walk blocks height n seen b,
      height c.1 = height' c.1 ∧ follower blocks c.1 c.2 = follower blocks' c.1 c.2) :
    walk blocks height n seen b = walk blocks' height' n seen b := by
  induction n generalizing seen b with
  | zero => rfl
  | succ n ih =>
    rw [walk] at h ⊢
    rw [walk]
    by_cases hseen : b.id ∈ seen
    · rw [if_pos hseen, if_pos hseen]
    · rw [if_neg hseen] at h ⊢
      rw [if_neg hseen]
      obtain ⟨hheight, hfollower⟩ := h _ List.mem_cons_self
      simp only at hfollower
      simp only [← hheight, ← hfollower]
      cases hf : follower blocks b (height b) with
      | none => rfl
      | some c =>
        simp only [hf] at h
        exact congrArg _ (ih fun d hd => h d (List.mem_cons_of_mem _ hd))

theorem mem_of_firstChild {blocks : List Block} {b c : Block} (h : firstChild blocks b = some c) :
    c ∈ blocks := by
  unfold firstChild at h
  split at h
  · exact List.mem_of_mem_filter (mem_candidates_of_nearest h)
  · cases h

theorem childLookups_subset (blocks : List Block) (b : Block) :
    childLookups b ⊆ lookups blocks b := by
  intro l hl
  rw [lookups, measuredNesting, bodyLookups]
  exact List.mem_append_left _ (List.mem_append_left _ hl)

theorem walkBound_perm {blocks blocks' : List Block} (h : blocks.Perm blocks') :
    walkBound blocks = walkBound blocks' := by
  rw [walkBound, walkBound, h.length_eq]

theorem countP_le_walkBound (blocks : List Block) (seen : List String) :
    blocks.countP (fun c => c.id ∉ seen) ≤ walkBound blocks :=
  Nat.le_succ_of_le List.countP_le_length

/-- A walk that may pass every id it has not seen does not run short. -/
theorem walk_enough {blocks : List Block} {height : Block → Float} {m n : Nat}
    {seen : List String} {b : Block} (hb : b ∈ blocks)
    (hm : blocks.countP (fun c => c.id ∉ seen) ≤ m)
    (hn : blocks.countP (fun c => c.id ∉ seen) ≤ n) :
    walk blocks height m seen b = walk blocks height n seen b := by
  induction m generalizing n seen b with
  | zero =>
    have hseen : b.id ∈ seen := by
      by_contra hseen
      have := countP_unseen_lt hb hseen
      omega
    cases n with
    | zero => rfl
    | succ n => rw [walk, walk, if_pos hseen]
  | succ m ih =>
    by_cases hseen : b.id ∈ seen
    · cases n <;> simp only [walk, if_pos hseen]
    · have hlt := countP_unseen_lt hb hseen
      obtain ⟨n, rfl⟩ := Nat.exists_eq_add_one.mpr (show 0 < n by omega)
      rw [walk, walk, if_neg hseen, if_neg hseen]
      cases hf : follower blocks b (height b) with
      | none => simp only [hf]
      | some c =>
        have hrest : walk blocks height m (b.id :: seen) c = walk blocks height n (b.id :: seen) c :=
          ih (mem_of_follower hf).1 (by omega) (by omega)
        simp only [hf, hrest]

section

variable {blocks blocks' : List Block} {b : Block}

/-- Where two lists of blocks agree on the lookups that are made, they have the same structure. -/
theorem firstChild_congr
    (h : ∀ l ∈ childLookups b, nearest blocks l.1 l.2 = nearest blocks' l.1 l.2) :
    firstChild blocks b = firstChild blocks' b := by
  unfold firstChild
  by_cases hb : b.shape = .wrap
  · rw [if_pos hb, if_pos hb]
    exact h (b, insidePoint b) (by simp [childLookups, hb])
  · rw [if_neg hb, if_neg hb]

theorem follower_congr {height : Float}
    (h : ∀ l ∈ followerLookups b height, nearest blocks l.1 l.2 = nearest blocks' l.1 l.2) :
    follower blocks b height = follower blocks' b height := by
  unfold follower
  by_cases hb : b.shape = .reporter
  · rw [if_pos hb, if_pos hb]
  · rw [if_neg hb, if_neg hb]
    exact h (b, ⟨b.position.x, b.position.y + height⟩) (by simp [followerLookups, hb])

theorem bodyHeightAt_congr {levels : Nat}
    (h : ∀ l ∈ bodyLookups blocks levels b, nearest blocks l.1 l.2 = nearest blocks' l.1 l.2) :
    bodyHeightAt blocks levels b = bodyHeightAt blocks' levels b := by
  induction levels generalizing b with
  | zero => rfl
  | succ levels ih =>
    rw [bodyLookups, List.forall_mem_append] at h
    obtain ⟨hchild, hwalk⟩ := h
    have hfirst := firstChild_congr hchild
    rw [bodyHeightAt, bodyHeightAt, ← hfirst]
    cases hsome : firstChild blocks b with
    | none => rfl
    | some first =>
      simp only [hsome] at hwalk hfirst
      have hcount := countP_le_walkBound blocks [b.id]
      have hcount' := countP_le_walkBound blocks' [b.id]
      have hsame : walk blocks (heightWith (bodyHeightAt blocks levels)) (walkBound blocks) [b.id]
          first = walk blocks' (heightWith (bodyHeightAt blocks' levels)) (walkBound blocks') [b.id]
          first := by
        rw [walk_enough (mem_of_firstChild hsome) hcount
          (hcount.trans (Nat.le_max_left _ (walkBound blocks')))] at hwalk ⊢
        rw [walk_enough (mem_of_firstChild hfirst.symm) hcount'
          (hcount'.trans (Nat.le_max_right (walkBound blocks) _))]
        apply walk_congr
        intro c hc
        have hclear := fun l hl => hwalk l (List.mem_flatMap.mpr ⟨c, hc, hl⟩)
        rw [List.forall_mem_append] at hclear
        refine ⟨?_, follower_congr hclear.2⟩
        rw [heightWith, heightWith, ih hclear.1]
      simp only [hsame]

end

section

variable {blocks blocks' : List Block} (hperm : blocks.Perm blocks')
  (hids : (blocks.map (·.id)).Nodup)

include hperm hids

theorem firstChild_perm {b : Block} (h : ∀ l ∈ childLookups b, Clear blocks l.1 l.2) :
    firstChild blocks b = firstChild blocks' b :=
  firstChild_congr fun l hl => nearest_perm hperm hids (h l hl)

theorem follower_perm {b : Block} {height : Float}
    (h : ∀ l ∈ followerLookups b height, Clear blocks l.1 l.2) :
    follower blocks b height = follower blocks' b height :=
  follower_congr fun l hl => nearest_perm hperm hids (h l hl)

theorem bodyHeightAt_perm {levels : Nat} {b : Block}
    (h : ∀ l ∈ bodyLookups blocks levels b, Clear blocks l.1 l.2) :
    bodyHeightAt blocks levels b = bodyHeightAt blocks' levels b :=
  bodyHeightAt_congr fun l hl => nearest_perm hperm hids (h l hl)

end

/-- Blocks listed in another order have the same structure, if no lookup that is made has two
equally distant candidates. -/
theorem structure_perm {blocks blocks' : List Block} (hids : (blocks.map (·.id)).Nodup)
    (hperm : blocks.Perm blocks')
    (hclear : ∀ b ∈ blocks, ∀ l ∈ lookups blocks b, Clear blocks l.1 l.2) :
    ∀ b ∈ blocks,
      height blocks b = height blocks' b ∧ bodyHeight blocks b = bodyHeight blocks' b ∧
      successor blocks b = successor blocks' b ∧ firstChild blocks b = firstChild blocks' b ∧
      stack blocks b = stack blocks' b ∧ body blocks b = body blocks' b := by
  have hchild : ∀ b ∈ blocks, firstChild blocks b = firstChild blocks' b := fun b hb =>
    firstChild_perm hperm hids fun l hl => hclear b hb l (childLookups_subset blocks b hl)
  have hbody : ∀ b ∈ blocks, bodyHeight blocks b = bodyHeight blocks' b := fun b hb =>
    bodyHeightAt_perm hperm hids fun l hl => hclear b hb l (List.mem_append_left _ hl)
  have hheight : ∀ b ∈ blocks, height blocks b = height blocks' b := by
    intro b hb
    rw [height, height, heightWith, heightWith, hbody b hb]
  have hbelow : ∀ b ∈ blocks, follower blocks b (height blocks b) =
      follower blocks' b (height blocks b) := fun b hb =>
    follower_perm hperm hids fun l hl => hclear b hb l (List.mem_append_right _ hl)
  have hstack : ∀ b ∈ blocks, stack blocks b = stack blocks' b := by
    intro b hb
    have hsub : stack blocks b ⊆ blocks := (stack_walked hb).subset hb
    have hsame : walk blocks (height blocks) (walkBound blocks) [] b =
        walk blocks' (height blocks') (walkBound blocks) [] b := by
      apply walk_congr
      intro c hc
      have hmem : c.1 ∈ blocks := hsub (List.mem_map_of_mem hc)
      rw [snd_of_mem_walk hc]
      exact ⟨hheight c.1 hmem, hbelow c.1 hmem⟩
    rw [stack, stack, hsame, walkBound_perm hperm]
  intro b hb
  refine ⟨hheight b hb, hbody b hb, ?_, hchild b hb, hstack b hb, ?_⟩
  · rw [successor, successor, ← hheight b hb, hbelow b hb]
  · rw [body, body, ← hchild b hb]
    cases hfirst : firstChild blocks b with
    | none => rfl
    | some first => exact hstack first (mem_of_firstChild hfirst)

/-- A loop with two blocks at its mouth, the first of them nearer, and a block below. -/
def mouthful : List Block :=
  [.create "below" .showSprite ⟨0, 100⟩, .create "loop" .forever ⟨0, 0⟩,
    .create "far" .hideSprite ⟨20, 47⟩, .create "near" .moveSteps ⟨18, 36⟩]

theorem structure_perm_mouthful :
    (mouthful.map (·.id)).Nodup ∧
      (∀ b ∈ mouthful, ∀ l ∈ lookups mouthful b, Clear mouthful l.1 l.2) ∧
      ∀ b ∈ mouthful, successor mouthful b = successor mouthful.reverse b ∧
        body mouthful b = body mouthful.reverse b := by
  have hids : (mouthful.map (·.id)).Nodup := by decide
  have hclear : ∀ b ∈ mouthful, ∀ l ∈ lookups mouthful b, Clear mouthful l.1 l.2 := by
    decide +kernel
  refine ⟨hids, hclear, fun b hb => ?_⟩
  obtain ⟨-, -, hsuccessor, -, -, hbody⟩ :=
    structure_perm hids mouthful.reverse_perm.symm hclear b hb
  exact ⟨hsuccessor, hbody⟩

end BlockScript.Layout

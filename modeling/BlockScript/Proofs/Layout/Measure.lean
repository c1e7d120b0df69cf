import BlockScript.Proofs.Layout.Drag

/-! Measuring a body. What stands inside a block is walked and measured with one level less than the
block itself, up to a limit, and this walk does not go past the block that is measured. Where the
limit cuts nothing off the levels make no difference, and a body that its own block is not part of
is as high as its blocks together. -/

namespace BlockScript.Layout

/-- Whether nothing inside `b` is cut off when `levels` levels of nesting are measured. -/
def Measured (blocks : List Block) : Nat → Block → Prop
  | 0, b => firstChild blocks b = none
  | levels + 1, b => ∀ first ∈ firstChild blocks b,
      ∀ c ∈ walk blocks (heightWith (bodyHeightAt blocks levels)) (walkBound blocks) [b.id] first,
        Measured blocks levels c.1

instance decidableMeasured (blocks : List Block) :
    (levels : Nat) → (b : Block) → Decidable (Measured blocks levels b)
  | 0, b => inferInstanceAs (Decidable (firstChild blocks b = none))
  | levels + 1, b =>
    have := decidableMeasured blocks levels
    inferInstanceAs <| Decidable <| ∀ first ∈ firstChild blocks b,
      ∀ c ∈ walk blocks (heightWith (bodyHeightAt blocks levels)) (walkBound blocks) [b.id] first,
        Measured blocks levels c.1

/-- Where nothing is cut off, one more level changes nothing. -/
theorem bodyHeightAt_succ {blocks : List Block} {levels : Nat} {b : Block}
    (h : Measured blocks levels b) :
    bodyHeightAt blocks levels b = bodyHeightAt blocks (levels + 1) b := by
  induction levels generalizing b with
  | zero =>
    have hnone : firstChild blocks b = none := h
    rw [bodyHeightAt, bodyHeightAt, hnone]
  | succ levels ih =>
    rw [bodyHeightAt, bodyHeightAt]
    cases hfirst : firstChild blocks b with
    | none => rfl
    | some first =>
      have hwalk : walk blocks (heightWith (bodyHeightAt blocks levels)) (walkBound blocks) [b.id]
          first = walk blocks (heightWith (bodyHeightAt blocks (levels + 1))) (walkBound blocks)
          [b.id] first := by
        apply walk_congr
        intro c hc
        have hc : Measured blocks levels c.1 := h first hfirst c hc
        refine ⟨?_, rfl⟩
        rw [heightWith, heightWith, ih hc]
      simp only [hwalk]

/-- A walk that does not pass `id` is the same where `id` counts as passed. -/
theorem walk_past {blocks : List Block} {height : Block → Float} {n : Nat} {seen : List String}
    {b : Block} {id : String} (h : ∀ c ∈ walk blocks height n seen b, c.1.id ≠ id) :
    walk blocks height n (seen ++ [id]) b = walk blocks height n seen b := by
  induction n generalizing seen b with
  | zero => rfl
  | succ n ih =>
    rw [walk] at h ⊢
    rw [walk]
    by_cases hseen : b.id ∈ seen
    · rw [if_pos hseen, if_pos (List.mem_append_left _ hseen)]
    · rw [if_neg hseen] at h ⊢
      have hid : b.id ≠ id := h _ List.mem_cons_self
      rw [if_neg (by simp [hseen, hid])]
      cases hf : follower blocks b (height b) with
      | none => simp only [hf]
      | some c =>
        simp only [hf] at h ⊢
        have hrest := ih fun d hd => h d (List.mem_cons_of_mem _ hd)
        rw [List.cons_append] at hrest
        rw [hrest]

/-- The walk that measures the body of `b` is the walk down its body. -/
theorem walk_body {blocks : List Block} {levels : Nat} {b first : Block}
    (hfirst : firstChild blocks b = some first) (hout : b.id ∉ (body blocks b).map (·.id))
    (h : Measured blocks (levels + 1) b) (hlevels : levels + 1 = measuredNesting) :
    walk blocks (heightWith (bodyHeightAt blocks levels)) (walkBound blocks) [b.id] first =
      walk blocks (height blocks) (walkBound blocks) [] first := by
  have hbody : body blocks b = stack blocks first := by simp only [body, hfirst]
  have hpast : walk blocks (height blocks) (walkBound blocks) [b.id] first =
      walk blocks (height blocks) (walkBound blocks) [] first := by
    change walk blocks (height blocks) (walkBound blocks) ([] ++ [b.id]) first = _
    refine walk_past fun c hc hid => hout ?_
    rw [hbody, ← hid]
    exact List.mem_map_of_mem (List.mem_map_of_mem hc)
  rw [← hpast]
  apply walk_congr
  intro c hc
  have hlevel : bodyHeightAt blocks levels c.1 = bodyHeight blocks c.1 := by
    rw [bodyHeight, ← hlevels, bodyHeightAt_succ (h first hfirst c hc)]
  refine ⟨?_, rfl⟩
  rw [height, heightWith, heightWith, hlevel]

theorem foldl_walk (blocks : List Block) (first : Block) :
    (walk blocks (height blocks) (walkBound blocks) [] first).foldl (fun total c => total + c.2) 0 =
      ((stack blocks first).map (height blocks)).foldl (· + ·) 0 := by
  rw [stack, List.map_map, List.foldl_map]
  refine List.foldl_ext _ _ 0 fun total c hc => ?_
  rw [snd_of_mem_walk hc, Function.comp_apply]

/-- Where nothing is cut off, the body of a block that is not part of it is as high as its blocks
together, from the first to the last, and at least as high as an empty one. -/
theorem bodyHeight_eq_sum {blocks : List Block} {b : Block}
    (hout : b.id ∉ (body blocks b).map (·.id)) (h : Measured blocks measuredNesting b) :
    bodyHeight blocks b =
        max leastBodyHeight (((body blocks b).map (height blocks)).foldl (· + ·) 0) ∧
      (body blocks b = [] → bodyHeight blocks b = leastBodyHeight) := by
  cases hfirst : firstChild blocks b with
  | none =>
    have hbody : body blocks b = [] := by simp only [body, hfirst]
    have hleast : bodyHeight blocks b = leastBodyHeight := by
      rw [bodyHeight, measuredNesting, bodyHeightAt, hfirst]
    refine ⟨?_, fun _ => hleast⟩
    have hzero : leastBodyHeight = max leastBodyHeight 0 := by decide +kernel
    rw [hleast, hbody]
    exact hzero
  | some first =>
    have hbody : body blocks b = stack blocks first := by simp only [body, hfirst]
    have htotal : bodyHeight blocks b = Number.atLeast
        (((body blocks b).map (height blocks)).foldl (· + ·) 0) leastBodyHeight := by
      rw [bodyHeight, measuredNesting, bodyHeightAt, hfirst]
      simp only [walk_body hfirst hout h rfl, foldl_walk, hbody]
    have hmem : first ∈ body blocks b := mem_body_of_firstChild hfirst
    refine ⟨?_, fun hnil => absurd hmem (by simp [hnil])⟩
    -- The first block alone is higher than an empty body.
    have hhigh : Number.AtLeast 40 (bodyHeight blocks b).toModel.unpack :=
      bodyHeightAt_of_firstChild 31 hfirst
    have hlow : Number.AtMost 24 leastBodyHeight.toModel.unpack :=
      .inr ⟨24, value_leastBodyHeight, le_rfl⟩
    rw [htotal, Number.atLeast] at hhigh ⊢
    by_cases hlt : ((body blocks b).map (height blocks)).foldl (· + ·) 0 > leastBodyHeight
    · rw [if_pos hlt]
      exact (if_pos (Number.le_of_lt hlt)).symm
    · rw [if_neg hlt] at hhigh
      exact absurd hlow (hhigh.not_atMost (by norm_num))

/-- A loop around two blocks, inside of another loop with a block below it. -/
def nestedLoops : List Block :=
  [.create "outer" .forever ⟨0, 0⟩, .create "inner" .repeatTimes ⟨20, 36⟩,
    .create "one" .moveSteps ⟨40, 72⟩, .create "two" .turnRight ⟨40, 112⟩,
    .create "after" .hideSprite ⟨20, 168⟩]

theorem bodyHeight_eq_sum_nested_loops :
    let outer : Block := .create "outer" .forever ⟨0, 0⟩
    outer.id ∉ (body nestedLoops outer).map (·.id) ∧ Measured nestedLoops measuredNesting outer ∧
      bodyHeight nestedLoops outer =
        max leastBodyHeight (((body nestedLoops outer).map (height nestedLoops)).foldl (· + ·) 0) ∧
      (body nestedLoops outer).map (height nestedLoops) = [132, 40] := by
  intro outer
  have hout : outer.id ∉ (body nestedLoops outer).map (·.id) := by decide +kernel
  have hmeasured : Measured nestedLoops measuredNesting outer := by decide +kernel
  exact ⟨hout, hmeasured, (bodyHeight_eq_sum hout hmeasured).1, by decide +kernel⟩

end BlockScript.Layout

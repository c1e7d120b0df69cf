import BlockScript.Proofs.Layout.Stack

/-! Stacks as chains of successors. Whatever the blocks are, with repeated ids or in circles, a
stack goes from each block to its successor until there is none or it has been passed. A stack that
ends for want of a successor holds the stacks of all its blocks: each of them is the rest of it. -/

namespace BlockScript.Layout

/-- A block that is not among `blocks` has a stack as well. -/
theorem walked_stack (blocks : List Block) (b : Block) : Walked blocks [] b (stack blocks b) :=
  .of_next List.not_mem_nil fun _ hc => walk_walked (near_of_successor hc).1 List.countP_le_length

theorem follower_shape {blocks : List Block} {b c : Block} {height : Float}
    (h : follower blocks b height = some c) : c.shape = .stack ∨ c.shape = .wrap := by
  unfold follower at h
  split at h
  · cases h
  · obtain ⟨-, -, hcan, -⟩ := mem_candidates.mp (mem_candidates_of_nearest h)
    simpa only [Block.canFollow, Bool.or_eq_true, beq_iff_eq] using hcan

theorem stack_of_reporter {blocks : List Block} {b : Block} (hb : b.shape = .reporter) :
    stack blocks b = [b] := by
  have hs : successor blocks b = none := by rw [successor, follower, if_pos hb]
  exact (walked_stack blocks b).unique (.bottom List.not_mem_nil hs)

/-- From each of its blocks on, a walk is a walk that has passed more. -/
theorem Walked.rest {blocks : List Block} {ids : List String} {b c : Block} {l l₁ l₂ : List Block}
    (h : Walked blocks ids b l) (hl : l = l₁ ++ c :: l₂) :
    ∃ passed, Walked blocks passed c (c :: l₂) := by
  induction h generalizing l₁ with
  | passed h => cases l₁ <;> cases hl
  | @bottom ids b h hs =>
    cases l₁ with
    | nil =>
      cases hl
      exact ⟨ids, .bottom h hs⟩
    | cons e l₁ => cases l₁ <;> cases hl
  | @down ids b d l h hs hw ih =>
    cases l₁ with
    | nil =>
      cases hl
      exact ⟨ids, .down h hs hw⟩
    | cons e l₁ => exact ih (List.cons.inj hl).2

/-- What was passed before does not matter to a walk that ends for want of a successor. -/
theorem Walked.of_subset {blocks : List Block} {ids ids' : List String} {b e : Block}
    {l : List Block} (h : Walked blocks ids b l) (hsub : ids' ⊆ ids) (hlast : l.getLast? = some e)
    (hend : successor blocks e = none) : Walked blocks ids' b l := by
  induction h generalizing ids' with
  | passed => cases hlast
  | bottom h hs => exact .bottom (fun hmem => h (hsub hmem)) hs
  | @down ids b c l h hs hw ih =>
    refine .down (fun hmem => h (hsub hmem)) hs (ih (List.cons_subset_cons _ hsub) ?_)
    rcases hw.head with ⟨-, rfl⟩ | ⟨t, rfl⟩
    · cases hlast
      cases hs.symm.trans hend
    · simpa using hlast

theorem Ends.stack_eq {blocks : List Block} {head b : Block} (h : Ends blocks head)
    {l₁ l₂ : List Block} (hl : stack blocks head = l₁ ++ b :: l₂) : stack blocks b = b :: l₂ := by
  obtain ⟨passed, hw⟩ := (walked_stack blocks head).rest hl
  obtain ⟨e, he⟩ : ∃ e, (b :: l₂).getLast? = some e := ⟨_, List.getLast?_cons⟩
  have hlast : (stack blocks head).getLast? = some e := by
    rw [hl, List.getLast?_append, he, Option.some_or]
  exact (walked_stack blocks b).unique (hw.of_subset (List.nil_subset _) he (h e hlast))

/-- A stack begins with its head, a reporter stands alone, no id comes twice, every block is the
successor of the one before it, and the last one has no successor that has not been passed. If it
has none at all, the stack of each block is what is left of the stack from there on. -/
theorem stack_is_successor_chain (blocks : List Block) (head : Block) :
    (stack blocks head).head? = some head ∧
    (head.shape = .reporter → stack blocks head = [head]) ∧
    ((stack blocks head).map (·.id)).Nodup ∧
    (∀ l₁ b c l₂, stack blocks head = l₁ ++ b :: c :: l₂ →
      successor blocks b = some c ∧ c ∈ blocks ∧ (c.shape = .stack ∨ c.shape = .wrap)) ∧
    (∀ b ∈ (stack blocks head).getLast?, ∀ c ∈ successor blocks b,
      c.id ∈ (stack blocks head).map (·.id)) ∧
    (Ends blocks head → ∀ k b, (stack blocks head)[k]? = some b →
      stack blocks b = (stack blocks head).drop k) := by
  have hw := walked_stack blocks head
  refine ⟨?_, stack_of_reporter, hw.nodup.1, fun l₁ b c l₂ hl => ?_, fun b hb c hc => ?_,
    fun hends k b hb => ?_⟩
  · rcases hw.head with ⟨h, -⟩ | ⟨t, ht⟩
    · cases h
    · rw [ht, List.head?_cons]
  · have hs := hw.successor_of_next hl
    exact ⟨hs, (near_of_successor hs).1, follower_shape hs⟩
  · obtain ⟨l, hl⟩ := List.getLast?_eq_some_iff.mp hb
    rcases hw.split hl with hs | ⟨-, d, hd, hmem⟩
    · cases hs.trans hc
    · cases hd.symm.trans hc
      simpa using hmem
  · obtain ⟨hk, rfl⟩ := List.getElem?_eq_some_iff.mp hb
    have hdrop := List.drop_eq_getElem_cons hk
    have hl : stack blocks head = (stack blocks head).take k ++ (stack blocks head)[k] ::
        (stack blocks head).drop (k + 1) := by
      rw [← hdrop, List.take_append_drop]
    rw [hends.stack_eq hl, hdrop]

/-- A hat with a block below that has a namesake, and a last block a little to the side. -/
def namesakes : List Block :=
  [.create "hat" .whenFlagClicked ⟨0, 0⟩, .create "step" .moveSteps ⟨0, 40⟩,
    .create "step" .turnRight ⟨0, 80⟩, .create "tail" .hideSprite ⟨5, 80⟩]

/-- The namesake stands nearest below the first of the two, and is passed over. -/
theorem stack_is_successor_chain_namesakes :
    let hat : Block := .create "hat" .whenFlagClicked ⟨0, 0⟩
    (stack namesakes hat).map (·.id) = ["hat", "step", "tail"] ∧ Ends namesakes hat ∧
      ∃ b, (stack namesakes hat)[1]? = some b ∧
        stack namesakes b = (stack namesakes hat).drop 1 := by
  intro hat
  have hids : (stack namesakes hat).map (·.id) = ["hat", "step", "tail"] := by decide +kernel
  have hends : Ends namesakes hat := by decide +kernel
  obtain ⟨-, -, -, -, -, hrest⟩ := stack_is_successor_chain namesakes hat
  have hlength : (stack namesakes hat).length = 3 := by
    rw [← List.length_map, hids]
    rfl
  have hb : (stack namesakes hat)[1]? = some (stack namesakes hat)[1] :=
    List.getElem?_eq_getElem (by omega)
  exact ⟨hids, hends, _, hb, hrest hends 1 _ hb⟩

end BlockScript.Layout

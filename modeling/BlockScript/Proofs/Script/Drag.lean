import BlockScript.Proofs.Layout.Drag
import BlockScript.Proofs.Script.Placement

/-! Dragging a stack of a script. What stands inside the blocks of the stack is not part of it and
stays behind, so a wrap block is as high as an empty one where it lands. Away from all other blocks,
the stack stays together if and only if the block after each wrap block that was not empty is still
found below it. -/

namespace BlockScript

open Number (IsWhole)
open Layout (stack firstChild nearest part bareBottom Aside Undistorted Whole)

namespace Script

theorem moveStack_eq {s : Script} {id : String} {head : Block} (hhead : s.get? id = some head)
    (p : Point) :
    let moved := (stack s.blocks head).map (·.id)
    let target := Snap.landing s.blocks head.shape p moved
    s.moveStack id p =
      .ok ({ s with blocks := Layout.dragged s.blocks moved (target.sub head.position) }, target) := by
  rw [moveStack, hhead]
  rfl

theorem stackFrom_eq {s : Script} {id : String} {head : Block} (hhead : s.get? id = some head) :
    s.stackFrom id = .ok (stack s.blocks head) := by
  rw [stackFrom, hhead]

/-- A stack that is dragged away from all other blocks, without distortion, stays together if and
only if the block after each of its wrap blocks that was not empty is found below that one when it
is measured as empty. Blocks at whole numbers are not distorted. -/
theorem moveStack_together_iff {s s' : Script} {id : String} {p target : Point} {head : Block}
    (hids : s.ids.Nodup) (hhead : s.get? id = some head)
    (hmove : s.moveStack id p = .ok (s', target))
    (haside : ∀ c ∈ s'.blocks, c.id ∉ (stack s.blocks head).map (·.id) →
      ∀ b ∈ s'.blocks, b.id ∈ (stack s.blocks head).map (·.id) → Aside c b) :
    (Undistorted (stack s.blocks head) (target.sub head.position) →
      ((s'.stackFrom id).map (List.map Block.id) = (s.stackFrom id).map (List.map Block.id) ↔
        ∀ l₁ b c l₂, stack s.blocks head = l₁ ++ b :: c :: l₂ → firstChild s.blocks b ≠ none →
          nearest (part s.blocks ((stack s.blocks head).map (·.id))) b (bareBottom b) = some c)) ∧
    ((∀ b ∈ stack s.blocks head, Whole b.position) → Whole target →
      Undistorted (stack s.blocks head) (target.sub head.position)) := by
  have hmem : head ∈ s.blocks := List.mem_of_find?_eq_some hhead
  have hid : head.id = id := by simpa using List.find?_some hhead
  have hblocks : s'.blocks = Layout.dragged s.blocks ((stack s.blocks head).map (·.id))
      (target.sub head.position) := by
    rw [moveStack_eq hhead, Except.ok.injEq, Prod.mk.injEq] at hmove
    obtain ⟨rfl, rfl⟩ := hmove
    rfl
  refine ⟨fun hform => ?_, fun hwhole htarget => ?_⟩
  · have hmem' : head.shift (target.sub head.position) ∈ s'.blocks :=
      hblocks ▸ Layout.shift_mem_dragged hmem (Layout.mem_stack_self head) _
    have hids' : s'.ids.Nodup := by
      rw [ids, hblocks, Layout.ids_dragged]
      exact hids
    have hhead' : s'.get? id = some (head.shift (target.sub head.position)) :=
      hid ▸ get?_of_mem hids' hmem'
    have haside' : ∀ c ∈ s.blocks, c.id ∉ (stack s.blocks head).map (·.id) →
        ∀ b ∈ stack s.blocks head, Aside c (b.shift (target.sub head.position)) := by
      intro c hc hout b hb
      apply haside c _ hout
      · exact hblocks ▸ Layout.shift_mem_dragged hmem hb _
      · exact List.mem_map.mpr ⟨b, hb, rfl⟩
      · rw [hblocks]
        exact List.mem_map.mpr ⟨c, hc, if_neg (by simpa using hout)⟩
    rw [stackFrom_eq hhead, stackFrom_eq hhead', hblocks]
    simp only [Except.map, Except.ok.injEq]
    rw [Layout.stack_dragged_iff hids hmem hform haside']
    constructor
    · intro h l₁ b c l₂ hl hfirst
      have hnext := h l₁ b c l₂ hl
      obtain ⟨first, hfirst⟩ := Option.ne_none_iff_exists'.mp hfirst
      rw [Layout.follower, Layout.shape_of_firstChild hfirst, if_neg (by decide)] at hnext
      exact hnext
    · intro h l₁ b c l₂ hl
      cases hfirst : firstChild s.blocks b with
      | none => exact Layout.follower_part hids hmem hl hfirst
      | some first =>
        rw [Layout.follower, Layout.shape_of_firstChild hfirst, if_neg (by decide)]
        exact h l₁ b c l₂ hl (by simp [hfirst])
  · exact Layout.undistorted_of_whole hwhole htarget (hwhole head (Layout.mem_stack_self head))

/-- A hat, a loop around one block and a block below, with another block elsewhere. -/
def hatAndLoop : Script :=
  ⟨[.create "hat" .whenFlagClicked ⟨0, 0⟩, .create "loop" .repeatTimes ⟨0, 40⟩,
    .create "in" .moveSteps ⟨20, 76⟩, .create "tail" .hideSprite ⟨0, 132⟩,
    .create "other" .showSprite ⟨500, 500⟩], 0⟩

theorem stack_hatAndLoop : stack hatAndLoop.blocks (.create "hat" .whenFlagClicked ⟨0, 0⟩) =
    [.create "hat" .whenFlagClicked ⟨0, 0⟩, .create "loop" .repeatTimes ⟨0, 40⟩,
      .create "tail" .hideSprite ⟨0, 132⟩] := by
  have hids : (hatAndLoop.blocks.map (·.id)).Nodup := by decide
  apply Layout.eq_of_ids hids
  · exact (Layout.stack_walked List.mem_cons_self).subset List.mem_cons_self
  · simp [hatAndLoop]
  · decide +kernel

/-- The stack of the hat after the move. -/
def hatAndLoopMoved : Script :=
  ⟨Layout.dragged hatAndLoop.blocks ["hat", "loop", "tail"] (Point.sub ⟨250, 90⟩ ⟨0, 0⟩), 0⟩

theorem moveStack_hatAndLoop :
    hatAndLoop.moveStack "hat" ⟨250, 90⟩ = .ok (hatAndLoopMoved, ⟨250, 90⟩) := by
  have hhead : hatAndLoop.get? "hat" = some (.create "hat" .whenFlagClicked ⟨0, 0⟩) := rfl
  have hland : Snap.landing hatAndLoop.blocks .hat ⟨250, 90⟩ ["hat", "loop", "tail"] =
      ⟨250, 90⟩ := by decide +kernel
  have hmove := moveStack_eq hhead ⟨250, 90⟩
  simp only [stack_hatAndLoop] at hmove
  refine hmove.trans ?_
  change Except.ok ((⟨Layout.dragged hatAndLoop.blocks ["hat", "loop", "tail"] (Point.sub
    (Snap.landing hatAndLoop.blocks .hat ⟨250, 90⟩ ["hat", "loop", "tail"]) ⟨0, 0⟩), 0⟩ : Script),
    Snap.landing hatAndLoop.blocks .hat ⟨250, 90⟩ ["hat", "loop", "tail"]) = _
  rw [hland]
  rfl

/-- The loop shrinks from 92 to 76, and the block below it is 16 off, which is near enough. -/
theorem moveStack_together_iff_hat_and_loop :
    let head : Block := .create "hat" .whenFlagClicked ⟨0, 0⟩
    let ids := (stack hatAndLoop.blocks head).map (·.id)
    hatAndLoop.ids.Nodup ∧ hatAndLoop.get? "hat" = some head ∧
      hatAndLoop.moveStack "hat" ⟨250, 90⟩ = .ok (hatAndLoopMoved, ⟨250, 90⟩) ∧
      (∀ c ∈ hatAndLoopMoved.blocks, c.id ∉ ids →
        ∀ b ∈ hatAndLoopMoved.blocks, b.id ∈ ids → Aside c b) ∧
      Undistorted (stack hatAndLoop.blocks head) (Point.sub ⟨250, 90⟩ ⟨0, 0⟩) ∧
      (hatAndLoopMoved.stackFrom "hat").map (List.map Block.id) =
        (hatAndLoop.stackFrom "hat").map (List.map Block.id) := by
  intro head ids
  have hids : hatAndLoop.ids.Nodup := by decide
  have hhead : hatAndLoop.get? "hat" = some head := rfl
  have hstack : stack hatAndLoop.blocks head = _ := stack_hatAndLoop
  have haside : ∀ c ∈ hatAndLoopMoved.blocks, c.id ∉ ids →
      ∀ b ∈ hatAndLoopMoved.blocks, b.id ∈ ids → Aside c b := by
    have hfar : ∀ c ∈ hatAndLoopMoved.blocks, c.id ∉ ["hat", "loop", "tail"] →
        ∀ b ∈ hatAndLoopMoved.blocks, b.id ∈ ["hat", "loop", "tail"] →
          (41 : Float) ≤ (c.position.x - b.position.x).abs := by decide +kernel
    intro c hc hout b hb hin
    simp only [ids, hstack] at hout hin
    exact Layout.aside_of_le (hfar c hc hout b hb hin)
  obtain ⟨htogether, hwhole⟩ :=
    moveStack_together_iff hids hhead moveStack_hatAndLoop haside
  have hzero : IsWhole 0 0 (2 ^ 50) := ⟨by rw [Int.cast_zero]; rfl, by norm_num⟩
  have hwhole := hwhole (fun b hb => ?_) ?_
  · refine ⟨hids, hhead, moveStack_hatAndLoop, haside, hwhole, (htogether hwhole).mpr ?_⟩
    intro l₁ b c l₂ hl hfirst
    rw [hstack] at hl
    rcases l₁ with _ | ⟨_, _ | ⟨_, l₁⟩⟩ <;>
      simp only [List.nil_append, List.cons_append, List.cons.injEq] at hl
    · obtain ⟨rfl, -⟩ := hl
      exact absurd rfl hfirst
    · obtain ⟨-, rfl, rfl, -⟩ := hl
      rw [hstack]
      apply eq_some_of_id hids
      · intro c hc
        exact List.mem_of_mem_filter
          (Layout.mem_candidates.mp (Layout.mem_candidates_of_nearest hc)).1
      · simp [hatAndLoop]
      · decide +kernel
    · have hlength := congrArg List.length hl.2.2
      rw [List.length_append] at hlength
      simp only [List.length_cons, List.length_nil] at hlength
      omega
  · rw [hstack] at hb
    simp only [List.mem_cons, List.not_mem_nil, or_false] at hb
    rcases hb with rfl | rfl | rfl
    · exact ⟨0, 0, hzero, hzero⟩
    · exact ⟨0, 40, hzero, by exact_mod_cast Layout.value_blockHeight, by norm_num⟩
    · refine ⟨0, 132, hzero, ?_, by norm_num⟩
      exact Number.value_positive (m := 132 * 2 ^ 45) (e := -45) (by norm_num) rfl (by norm_num)
  · refine ⟨250, 90, ⟨?_, by norm_num⟩, ?_, by norm_num⟩
    · exact Number.value_positive (m := 250 * 2 ^ 45) (e := -45) (by norm_num) rfl (by norm_num)
    · exact Number.value_positive (m := 90 * 2 ^ 46) (e := -46) (by norm_num) rfl (by norm_num)

/-- A loop around two blocks, with another block below. -/
def longLoop : Script :=
  ⟨[.create "loop" .repeatTimes ⟨0, 0⟩, .create "one" .moveSteps ⟨20, 36⟩,
    .create "two" .moveSteps ⟨20, 76⟩, .create "tail" .hideSprite ⟨0, 132⟩], 0⟩

/-- Two blocks that are just near enough. -/
def farPair : Script :=
  ⟨[.create "top" .moveSteps ⟨0, 0⟩, .create "below" .hideSprite ⟨0, 59.99999999999999⟩], 0⟩

/-- A loop whose body stays behind shrinks away from the block below it. Where nothing is left behind,
rounding may still part two blocks. -/
theorem moveStack_parts_stack :
    (¬ ∀ (s s' : Script) (id : String) (p target : Point) (head : Block), s.ids.Nodup →
      s.get? id = some head → s.moveStack id p = .ok (s', target) →
      (∀ c ∈ s'.blocks, c.id ∉ (stack s.blocks head).map (·.id) →
        ∀ b ∈ s'.blocks, b.id ∈ (stack s.blocks head).map (·.id) → Aside c b) →
      (s'.stackFrom id).map (List.map Block.id) = (s.stackFrom id).map (List.map Block.id)) ∧
    ¬ ∀ (s s' : Script) (id : String) (p target : Point) (head : Block), s.ids.Nodup →
      s.get? id = some head → s.moveStack id p = .ok (s', target) →
      (∀ c ∈ s'.blocks, c.id ∉ (stack s.blocks head).map (·.id) →
        ∀ b ∈ s'.blocks, b.id ∈ (stack s.blocks head).map (·.id) → Aside c b) →
      (∀ b ∈ s.blocks, firstChild s.blocks b = none) →
      (s'.stackFrom id).map (List.map Block.id) = (s.stackFrom id).map (List.map Block.id) := by
  refine ⟨fun h => ?_, fun h => ?_⟩
  · have hfar : ∀ c ∈ (longLoop.edit (.moveStack "loop" ⟨500, 0⟩)).blocks,
        c.id ∉ (stack longLoop.blocks (.create "loop" .repeatTimes ⟨0, 0⟩)).map (·.id) →
        ∀ b ∈ (longLoop.edit (.moveStack "loop" ⟨500, 0⟩)).blocks,
          b.id ∈ (stack longLoop.blocks (.create "loop" .repeatTimes ⟨0, 0⟩)).map (·.id) →
          (41 : Float) ≤ (c.position.x - b.position.x).abs := by decide +kernel
    have hsame := h longLoop _ "loop" ⟨500, 0⟩ _ _ (by decide) rfl (moveStack_eq rfl _)
      fun c hc hout b hb hin => Layout.aside_of_le (hfar c hc hout b hb hin)
    have hids := congrArg Except.toOption hsame
    revert hids
    decide +kernel
  · have hall : ∀ c ∈ (farPair.edit (.moveStack "top" ⟨0, 1000⟩)).blocks,
        c.id ∈ (stack farPair.blocks (.create "top" .moveSteps ⟨0, 0⟩)).map (·.id) := by
      decide +kernel
    have hempty : ∀ b ∈ farPair.blocks, firstChild farPair.blocks b = none := by
      intro b hb
      simp only [farPair, List.mem_cons, List.not_mem_nil, or_false] at hb
      rcases hb with rfl | rfl <;> rfl
    have hsame := h farPair _ "top" ⟨0, 1000⟩ _ _ (by decide) rfl (moveStack_eq rfl _)
      (fun c hc hout => absurd (hall c hc) hout) hempty
    have hids := congrArg Except.toOption hsame
    revert hids
    decide +kernel

end Script

end BlockScript

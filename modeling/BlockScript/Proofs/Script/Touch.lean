import BlockScript.Proofs.Script.Drag

/-! What taking out and dragging a stack touches. The blocks that are taken out of a script are
gathered in the order of the stack, from a pool that is mixed up each time one leaves it. With
distinct ids they are still exactly the blocks of the stack, the others stay as they are, and a drag
moves every block of the stack by the same amount. -/

namespace BlockScript.Script

open Layout (stack part)

/-- With its last block in the gap, the pool is the same but for the block that has left it. -/
theorem perm_of_find {pool : List Block} {id : String} {b : Block}
    (hb : pool.find? (·.id == id) = some b) :
    (b :: (pool.set (pool.findIdx (·.id == id)) (pool.getLastD b)).dropLast).Perm pool := by
  obtain ⟨hid, l₁, l₂, rfl, hl₁⟩ := List.find?_eq_some_iff_append.mp hb
  have hgap : (l₁ ++ b :: l₂).findIdx (·.id == id) = l₁.length := by
    have hnone : l₁.findIdx (·.id == id) = l₁.length :=
      List.findIdx_eq_length.mpr fun c hc => by simpa using hl₁ c hc
    rw [List.findIdx_append, hnone, if_neg (lt_irrefl _), List.findIdx_cons, hid, cond_true,
      zero_add]
  rw [hgap, List.set_append_right _ _ le_rfl, Nat.sub_self, List.set_cons_zero,
    List.dropLast_append_cons]
  rcases List.eq_nil_or_concat l₂ with rfl | ⟨l₂, last, rfl⟩
  · rw [List.dropLast_singleton, List.append_nil]
    exact (List.perm_append_singleton b l₁).symm
  · rw [List.concat_eq_append]
    have hlast : (l₁ ++ b :: (l₂ ++ [last])).getLastD b = last := by
      rw [← List.cons_append, ← List.append_assoc, List.getLastD_concat]
    have hdrop : (last :: (l₂ ++ [last])).dropLast = last :: l₂ := by
      rw [← List.cons_append, List.dropLast_concat]
    rw [hlast, hdrop]
    calc
      (b :: l₁ ++ last :: l₂).Perm (l₁ ++ b :: last :: l₂) := List.perm_middle.symm
      _ |>.Perm (l₁ ++ b :: (l₂ ++ [last])) :=
        ((List.perm_append_singleton last l₂).symm.cons b).append_left l₁

/-- Blocks of a pool with distinct ids are found in whatever order they are asked for. -/
theorem takeOut_eq {pool l : List Block} (hpool : (pool.map (·.id)).Nodup)
    (hl : (l.map (·.id)).Nodup) (hsub : l ⊆ pool) : takeOut (l.map (·.id)) pool = l := by
  induction l generalizing pool with
  | nil => rfl
  | cons b l ih =>
    obtain ⟨hb, hsub⟩ := List.cons_subset.mp hsub
    rw [List.map_cons, List.nodup_cons] at hl
    have hfind : pool.find? (·.id == b.id) = some b := get?_of_mem (s := ⟨pool, 0⟩) hpool hb
    have hperm := perm_of_find hfind
    have hrest := (hperm.map (·.id)).nodup_iff.mpr hpool
    rw [List.map_cons, takeOut, hfind]
    refine congrArg _ (ih (List.nodup_cons.mp hrest).2 hl.2 fun c hc => ?_)
    -- No other block of the stack has the id of the one that has left.
    rcases List.mem_cons.mp (hperm.mem_iff.mpr (hsub hc)) with rfl | hc'
    · exact absurd (List.mem_map_of_mem hc) hl.1
    · exact hc'

section

variable {s : Script} {head : Block} (hids : s.ids.Nodup) (hhead : head ∈ s.blocks)

include hids hhead

theorem remove_eq : s.remove head.id = .ok ({ s with
    blocks := s.blocks.filter fun b => !((stack s.blocks head).map (·.id)).contains b.id },
    stack s.blocks head) := by
  have htaken : takeOut ((stack s.blocks head).map (·.id))
      (part s.blocks ((stack s.blocks head).map (·.id))) = stack s.blocks head :=
    takeOut_eq (hids.sublist (List.filter_sublist.map _)) (Layout.stack_nodup hhead)
      fun _ hc => (Layout.mem_part_stack hids hhead).mpr hc
  rw [part] at htaken
  rw [remove, stackFrom_eq (get?_of_mem hids hhead)]
  simp only [bind, Except.bind, pure, Except.pure, htaken]

theorem mem_stack_iff_id {b : Block} (hb : b ∈ s.blocks) :
    b ∈ stack s.blocks head ↔ ((stack s.blocks head).map (·.id)).contains b.id = true := by
  rw [← Layout.mem_part_stack hids hhead, part, List.mem_filter]
  exact and_iff_right hb

theorem mem_kept {b : Block} :
    b ∈ s.blocks.filter (fun b => !((stack s.blocks head).map (·.id)).contains b.id) ↔
      b ∈ s.blocks ∧ b ∉ stack s.blocks head := by
  rw [List.mem_filter]
  refine and_congr_right fun hb => ?_
  rw [mem_stack_iff_id hids hhead hb, Bool.not_eq_true', Bool.not_eq_true]

theorem stack_append_kept_perm :
    (stack s.blocks head ++ s.blocks.filter fun b =>
      !((stack s.blocks head).map (·.id)).contains b.id).Perm s.blocks := by
  have hblocks : s.blocks.Nodup := .of_map _ hids
  have hstack : (stack s.blocks head).Nodup := .of_map _ (Layout.stack_nodup hhead)
  have hpart : (stack s.blocks head).Perm (part s.blocks ((stack s.blocks head).map (·.id))) :=
    (List.perm_ext_iff_of_nodup hstack (hblocks.filter _)).mpr fun _ =>
      (Layout.mem_part_stack hids hhead).symm
  exact (hpart.append_right _).trans (List.filter_append_perm _ s.blocks)

end

/-- Taking out a block gives exactly the blocks of its stack and leaves the others as they are.
Dragging it moves the blocks of its stack by the way from where it stood to where it lands, and
leaves the others as they are. -/
theorem stack_edits_touch_stack_only {s : Script} {head : Block} (hids : s.ids.Nodup)
    (hhead : head ∈ s.blocks) (p : Point) :
    (∃ s', s.remove head.id = .ok (s', stack s.blocks head) ∧
      s'.blocks.Sublist s.blocks ∧ (stack s.blocks head ++ s'.blocks).Perm s.blocks ∧
      (∀ b, b ∈ s'.blocks ↔ b ∈ s.blocks ∧ b ∉ stack s.blocks head) ∧
      s'.lastNumber = s.lastNumber) ∧
    ∃ s' target, s.moveStack head.id p = .ok (s', target) ∧
      target = (match Snap.find? s.blocks head.shape p ((stack s.blocks head).map (·.id)) with
        | some snap => snap.position
        | none => p) ∧
      s.blocks.Forall₂ (fun b b' =>
        (b ∈ stack s.blocks head → b' = { b with position :=
          ⟨b.position.x + (target.x - head.position.x),
            b.position.y + (target.y - head.position.y)⟩ }) ∧
        (b ∉ stack s.blocks head → b' = b)) s'.blocks ∧
      s'.lastNumber = s.lastNumber := by
  constructor
  · exact ⟨_, remove_eq hids hhead, List.filter_sublist, stack_append_kept_perm hids hhead,
      fun _ => mem_kept hids hhead, rfl⟩
  · refine ⟨_, _, moveStack_eq (get?_of_mem hids hhead) p, ?_, ?_, rfl⟩
    · rw [Snap.landing]
      cases Snap.find? s.blocks head.shape p ((stack s.blocks head).map (·.id)) <;> rfl
    · rw [Layout.dragged, List.forall₂_map_right_iff, List.forall₂_same]
      intro b hb
      rw [mem_stack_iff_id hids hhead hb]
      exact ⟨fun h => if_pos h, fun h => if_neg h⟩

/-- A hat, a loop around one block and a block below, with another block elsewhere, listed out of
order. -/
def scattered : Script :=
  ⟨[.create "tail" .hideSprite ⟨0, 132⟩, .create "in" .moveSteps ⟨20, 76⟩,
    .create "loop" .repeatTimes ⟨0, 40⟩, .create "other" .showSprite ⟨500, 500⟩,
    .create "hat" .whenFlagClicked ⟨0, 0⟩], 0⟩

theorem stack_edits_touch_stack_only_scattered :
    let hat : Block := .create "hat" .whenFlagClicked ⟨0, 0⟩
    scattered.ids.Nodup ∧ hat ∈ scattered.blocks ∧
      (stack scattered.blocks hat).map (·.id) = ["hat", "loop", "tail"] ∧
      (∃ s', scattered.remove "hat" = .ok (s', stack scattered.blocks hat) ∧
        s'.blocks.map (·.id) = ["in", "other"]) ∧
      ∃ s', scattered.moveStack "hat" ⟨250, 90⟩ = .ok (s', ⟨250, 90⟩) ∧
        scattered.blocks.Forall₂ (fun b b' => b ∉ stack scattered.blocks hat → b' = b)
          s'.blocks := by
  intro hat
  have hids : scattered.ids.Nodup := by decide
  have hhat : hat ∈ scattered.blocks := by simp [scattered, hat]
  obtain ⟨⟨left, hremove, -⟩, moved, target, hmove, rfl, hmoved, -⟩ :=
    stack_edits_touch_stack_only hids hhat ⟨250, 90⟩
  have hleft : left = scattered.edit (.remove "hat") := by
    change scattered.remove "hat" = _ at hremove
    simp only [edit, hremove]
    rfl
  refine ⟨hids, hhat, by decide +kernel, ⟨left, hremove, ?_⟩, moved, hmove, ?_⟩
  · rw [hleft]
    decide +kernel
  · exact hmoved.imp fun b b' h => h.2

end BlockScript.Script

import BlockScript.Script
import Mathlib

/-! The ids of the blocks of a script. A placed block gets the next number, and nothing looks
whether its id is taken. So ids stay distinct exactly as long as no block is placed whose id was
inserted before. -/

namespace BlockScript.Script

inductive Edit where
  | place (kind : BlockKind) (p : Point) (overrides : Table Param)
  | insert (b : Block)
  | remove (id : String)
  | setParam (id name : String) (value : Param)
  | moveStack (id : String) (p : Point)

/-- The script after an edit. An edit that is refused changes nothing. -/
def edit (s : Script) : Edit → Script
  | .place kind p overrides => (s.place kind p overrides).1
  | .insert b => (s.insert b).toOption.getD s
  | .remove id => ((s.remove id).toOption.map Prod.fst).getD s
  | .setParam id name value => (s.setParam id name value).toOption.getD s
  | .moveStack id p => ((s.moveStack id p).toOption.map Prod.fst).getD s

/-- A new script after the edits `es`. -/
def edited (es : List Edit) : Script :=
  es.foldl edit empty

def ids (s : Script) : List String :=
  s.blocks.map (·.id)

/-- The id that an edit gives to a new block by itself. -/
def given? (s : Script) : Edit → Option String
  | .place kind _ _ => some (blockId kind (s.lastNumber + 1))
  | _ => none

theorem edited_snoc (es : List Edit) (e : Edit) : edited (es ++ [e]) = (edited es).edit e := by
  simp [edited]

theorem get?_eq_none_iff (s : Script) (id : String) : s.get? id = none ↔ id ∉ s.ids := by
  simp [get?, ids]

/-- What an edit does to ids: one given to a placed block, one that is inserted and was free, or
none that is new. -/
inductive Edited (s : Script) : Edit → Script → Prop
  | places {kind : BlockKind} {p : Point} {overrides : Table Param} {s' : Script}
    (hi : s'.ids = s.ids ++ [blockId kind (s.lastNumber + 1)])
    (hn : s'.lastNumber = s.lastNumber + 1) : Edited s (.place kind p overrides) s'
  | inserts {b : Block} {s' : Script} (hb : b.id ∉ s.ids) (hi : s'.ids = s.ids ++ [b.id])
    (hn : s'.lastNumber = s.lastNumber) : Edited s (.insert b) s'
  | keeps {e : Edit} {s' : Script} (he : s.given? e = none) (hi : s'.ids.Sublist s.ids)
    (hn : s'.lastNumber = s.lastNumber) : Edited s e s'

theorem ids_setParam (s : Script) (i : Nat) (name : String) (value : Param) :
    (s.blocks.modify i fun b => { b with params := b.params.insert name value }).map (·.id) =
      s.ids := by
  apply List.ext_getElem
  · simp [ids]
  · intro j hj hj'
    simp only [ids, List.getElem_map, List.getElem_modify]
    split <;> rfl

theorem ids_moveStack (s : Script) (moved : List String) (d : Point) :
    (s.blocks.map fun b => if moved.contains b.id then b.shift d else b).map (·.id) = s.ids := by
  rw [ids, List.map_map]
  refine List.map_congr_left fun b _ => ?_
  simp only [Function.comp_apply]
  split <;> rfl

theorem edit_cases (s : Script) (e : Edit) : Edited s e (s.edit e) := by
  have hsame {e : Edit} (he : s.given? e = none) : Edited s e s := .keeps he (.refl _) rfl
  cases e with
  | place kind p overrides => exact .places (by simp [edit, place, ids, Block.create]) rfl
  | insert b =>
    simp only [edit, Script.insert]
    cases hb : s.get? b.id with
    | some c => exact hsame rfl
    | none => exact .inserts ((s.get?_eq_none_iff b.id).mp hb) (by simp [Except.toOption, ids]) rfl
  | remove id =>
    simp only [edit, remove, stackFrom]
    cases hb : s.get? id with
    | none => exact hsame rfl
    | some head => exact .keeps rfl (List.filter_sublist.map _) rfl
  | setParam id name value =>
    simp only [edit, setParam]
    cases hb : s.get? id with
    | none => exact hsame rfl
    | some b =>
      cases hp : b.kind.param? name with
      | none =>
        simp only [hp]
        exact hsame rfl
      | some def? =>
        simp only [hp]
        refine .keeps rfl ?_ rfl
        rw [← s.ids_setParam]
        exact .refl _
  | moveStack id p =>
    simp only [edit, moveStack]
    cases hb : s.get? id with
    | none => exact hsame rfl
    | some head =>
      refine .keeps rfl ?_ rfl
      rw [← s.ids_moveStack]
      exact .refl _

/-- Distinct ids stay distinct in an edit exactly if the id that it gives is free. -/
theorem nodup_edit_iff {s : Script} (h : s.ids.Nodup) (e : Edit) :
    (s.edit e).ids.Nodup ↔ ∀ id ∈ s.given? e, id ∉ s.ids := by
  have hc := s.edit_cases e
  generalize s.edit e = s' at hc
  have hsnoc (id : String) : (s.ids ++ [id]).Nodup ↔ id ∉ s.ids := by
    rw [List.nodup_append_comm, List.singleton_append, List.nodup_cons]
    exact and_iff_left h
  cases hc with
  | places hi hn => simp [hi, hsnoc, given?]
  | inserts hb hi hn => simp [hi, hsnoc, hb, given?]
  | keeps he hi hn => simp [he, h.sublist hi]

/-- What stands after the last dash of an id is its number. -/
theorem number_of_blockId {kind kind' : BlockKind} {n n' : Nat}
    (h : blockId kind n = blockId kind' n') : n = n' := by
  have hlast (front : List Char) (n : Nat) :
      ((front ++ '-' :: Nat.toDigits 10 n).reverse.takeWhile (· != '-')) =
        (Nat.toDigits 10 n).reverse := by
    rw [List.reverse_append, List.reverse_cons, List.append_assoc, List.takeWhile_append_of_pos]
    · simp
    · intro c hc
      have hd : c.isDigit = true :=
        Nat.isDigit_of_mem_toDigits (by decide) (by decide) (List.mem_reverse.mp hc)
      simp only [bne_iff_ne]
      rintro rfl
      exact absurd hd (by decide)
  have hchars := congrArg String.toList h
  simp only [blockId, String.toList_append, String.toList_ofList, List.append_assoc] at hchars
  have hdigits := congrArg (fun l => l.reverse.takeWhile (· != '-')) hchars
  have hdash : "-".toList = ['-'] := rfl
  simp only [hdash, List.singleton_append, hlast, List.reverse_inj] at hdigits
  calc
    n = Nat.ofDigitChars 10 (Nat.toDigits 10 n) 0 := Nat.ofDigitChars_ten_toDigits.symm
    _ = Nat.ofDigitChars 10 (Nat.toDigits 10 n') 0 := by rw [hdigits]
    _ = n' := Nat.ofDigitChars_ten_toDigits

/-- The insertion does not take an id that is still to be given. -/
def Edit.SparesNumbers (s : Script) : Edit → Prop
  | .insert b => ∀ kind n, s.lastNumber < n → b.id ≠ blockId kind n
  | _ => True

/-- No id in the script has a number that is still to be given. -/
def Numbered (s : Script) : Prop :=
  ∀ kind n, blockId kind n ∈ s.ids → n ≤ s.lastNumber

theorem Numbered.edit {s : Script} (h : s.Numbered) {e : Edit} (he : e.SparesNumbers s) :
    (s.edit e).Numbered := by
  intro kind n hmem
  have hc := s.edit_cases e
  generalize s.edit e = s' at hc hmem
  cases hc with
  | places hi hn =>
    rw [hi, List.mem_append, List.mem_singleton] at hmem
    rcases hmem with hmem | hmem
    · have := h kind n hmem
      omega
    · have := number_of_blockId hmem
      omega
  | inserts hb hi hn =>
    rw [hi, List.mem_append, List.mem_singleton] at hmem
    rcases hmem with hmem | hmem
    · have := h kind n hmem
      omega
    · by_contra hlt
      exact he kind n (by omega) hmem.symm
  | keeps hg hi hn =>
    have := h kind n (hi.subset hmem)
    omega

theorem Numbered.given_free {s : Script} (h : s.Numbered) (e : Edit) :
    ∀ id ∈ s.given? e, id ∉ s.ids := by
  intro id hid hmem
  cases e with
  | place kind p overrides =>
    cases hid
    have := h kind (s.lastNumber + 1) hmem
    omega
  | _ => cases hid

theorem edited_nodup {es : List Edit}
    (h : ∀ before e, before ++ [e] <+: es →
      ∀ id ∈ (edited before).given? e, id ∉ (edited before).ids) {before : List Edit}
    (hb : before <+: es) : (edited before).ids.Nodup := by
  induction before using List.reverseRecOn with
  | nil => exact List.nodup_nil
  | append_singleton before e ih =>
    have hbefore := ih ((List.prefix_append before [e]).trans hb)
    rw [edited_snoc, nodup_edit_iff hbefore]
    exact h before e hb

theorem edited_numbered {es : List Edit}
    (h : ∀ before e, before ++ [e] <+: es → e.SparesNumbers (edited before)) {before : List Edit}
    (hb : before <+: es) : (edited before).Numbered := by
  induction before using List.reverseRecOn with
  | nil =>
    intro kind n hmem
    cases hmem
  | append_singleton before e ih =>
    have hbefore := ih ((List.prefix_append before [e]).trans hb)
    rw [edited_snoc]
    exact hbefore.edit (h before e hb)

/-- The ids of a script are distinct after each of its edits exactly if every id given to a placed
block was free. That is so whenever no id is inserted whose number is still to be given. -/
theorem ids_distinct_iff_given_free (es : List Edit) :
    ((∀ before, before <+: es → (edited before).ids.Nodup) ↔
      ∀ before e, before ++ [e] <+: es →
        ∀ id ∈ (edited before).given? e, id ∉ (edited before).ids) ∧
    ((∀ before e, before ++ [e] <+: es → e.SparesNumbers (edited before)) →
      ∀ before, before <+: es → (edited before).ids.Nodup) := by
  refine ⟨⟨fun h before e hb => ?_, fun h before => edited_nodup h⟩, fun h before => ?_⟩
  · have hnext := h (before ++ [e]) hb
    rw [edited_snoc] at hnext
    have hbefore := h before ((List.prefix_append before [e]).trans hb)
    exact (nodup_edit_iff hbefore e).mp hnext
  · refine edited_nodup fun before e hb => ?_
    exact (edited_numbered h ((List.prefix_append before [e]).trans hb)).given_free e

def firstMove : Block :=
  .create "MOTION_MOVE_STEPS-1" .moveSteps .origin

/-- A block that was taken out is put back, so that no number is given twice. -/
def backAgain : List Edit :=
  [.place .moveSteps .origin [], .remove "MOTION_MOVE_STEPS-1", .insert firstMove,
    .place .moveSteps ⟨300, 300⟩ []]

theorem ids_distinct_iff_given_free_back_again :
    (edited backAgain).ids = ["MOTION_MOVE_STEPS-1", "MOTION_MOVE_STEPS-2"] ∧
      ∀ before, before <+: backAgain → (edited before).ids.Nodup := by
  refine ⟨by decide +kernel, (ids_distinct_iff_given_free backAgain).2 ?_⟩
  rintro before e ⟨after, h⟩
  cases e with
  | insert b =>
    -- The insertion comes third, when one number has been given.
    obtain ⟨rfl, rfl⟩ : before = backAgain.take 2 ∧ b = firstMove := by
      rcases before with _ | ⟨_, _ | ⟨_, _ | ⟨_, _ | ⟨_, before⟩⟩⟩⟩ <;>
        simp_all [backAgain]
    intro kind n hn he
    have hone : (edited (backAgain.take 2)).lastNumber = 1 := by decide +kernel
    have hnumber : 1 = n := number_of_blockId (show blockId .moveSteps 1 = _ from he)
    omega
  | _ => trivial

theorem placed_id_is_taken : ¬ ∀ es, (edited es).ids.Nodup := by
  intro h
  have hboth := h [.insert firstMove, .place .moveSteps ⟨300, 300⟩ []]
  revert hboth
  decide +kernel

end BlockScript.Script

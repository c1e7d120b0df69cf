import BlockScript.Proofs.Run.Act

/-! Sprites and objects by their ids. A project and its stage have the same sprites in the same
order, each under its own id, and ids come from counters that never go back, so that none is given
twice. -/

namespace BlockScript

theorem toDigits_injective : Function.Injective (Nat.toDigits 10) := by
  intro n n' h
  calc
    n = Nat.ofDigitChars 10 (Nat.toDigits 10 n) 0 := Nat.ofDigitChars_ten_toDigits.symm
    _ = Nat.ofDigitChars 10 (Nat.toDigits 10 n') 0 := by rw [h]
    _ = n' := Nat.ofDigitChars_ten_toDigits

theorem append_digits_injective (front : String) :
    Function.Injective fun n => front ++ String.ofList (Nat.toDigits 10 n) := by
  intro n n' h
  have hchars := congrArg String.toList h
  simp only [String.toList_append, String.toList_ofList, List.append_cancel_left_eq] at hchars
  exact toDigits_injective hchars

/-- The ids were given by a counter that stands at `last`, each once. -/
structure Issued (name : Nat → String) (last : Nat) (ids : List String) : Prop where
  nodup : ids.Nodup
  numbered : ∀ id ∈ ids, ∃ n ≤ last, id = name n

theorem Issued.mono {name : Nat → String} {last last' : Nat} {ids : List String}
    (h : Issued name last ids) (hl : last ≤ last') : Issued name last' ids := by
  refine ⟨h.nodup, fun id hid => ?_⟩
  obtain ⟨n, hn, he⟩ := h.numbered id hid
  exact ⟨n, Nat.le_trans hn hl, he⟩

theorem Issued.next {name : Nat → String} (hname : Function.Injective name) {last : Nat}
    {ids : List String} (h : Issued name last ids) (count : Nat) :
    Issued name (last + count) (ids ++ (List.range' (last + 1) count).map name) := by
  refine ⟨List.nodup_append.mpr ⟨h.nodup, ?_, ?_⟩, fun id hid => ?_⟩
  · exact (List.nodup_range' (h := by omega)).map hname
  · rintro id hid _ hnew rfl
    obtain ⟨n, hn, rfl⟩ := h.numbered id hid
    obtain ⟨k, hk, he⟩ := List.mem_map.mp hnew
    have := hname he
    have := (List.mem_range'_1.mp hk).1
    omega
  · rcases List.mem_append.mp hid with hid | hid
    · obtain ⟨n, hn, he⟩ := h.numbered id hid
      exact ⟨n, by omega, he⟩
    · obtain ⟨k, hk, rfl⟩ := List.mem_map.mp hid
      have := (List.mem_range'_1.mp hk).2
      exact ⟨k, by omega, rfl⟩

namespace Stage

/-- Objects were only added, with the next ids. -/
def Grown (s s' : Stage) : Prop :=
  ∃ new, s'.objects = s.objects ++ new ∧ s'.lastObject = s.lastObject + new.length ∧
    new.map (·.id) = (List.range' (s.lastObject + 1) new.length).map objectId

theorem Grown.of_eq {s s' : Stage} (ho : s'.objects = s.objects)
    (hl : s'.lastObject = s.lastObject) : s.Grown s' :=
  ⟨[], by simp [ho], by simp [hl], rfl⟩

theorem Grown.trans {s s' s'' : Stage} (h : s.Grown s') (h' : s'.Grown s'') : s.Grown s'' := by
  obtain ⟨new, ho, hl, hi⟩ := h
  obtain ⟨new', ho', hl', hi'⟩ := h'
  refine ⟨new ++ new', by rw [ho', ho, List.append_assoc], ?_, ?_⟩
  · rw [hl', hl, List.length_append, Nat.add_assoc]
  · rw [List.map_append, hi, hi', hl, List.length_append, ← List.range'_append_1, List.map_append]
    congr 3
    omega

theorem addObject_grown (s : Stage) (kind : ObjectKind) (prompt texture : String) :
    s.Grown (s.addObject kind prompt texture).1 :=
  ⟨[⟨objectId (s.lastObject + 1), kind, prompt, texture⟩], rfl, rfl, rfl⟩

theorem updateSprite_grown (s : Stage) (id : String) (f : Sprite → Sprite) :
    s.Grown (s.updateSprite id f) := by
  unfold updateSprite
  split <;> exact .of_eq rfl rfl

end Stage

namespace Project

/-- The project and its stage have the same sprites, each under its own id. -/
structure Aligned (p : Project) : Prop where
  keys : p.stage.sprites.keys = p.scripts.keys
  ids : ∀ b ∈ p.stage.sprites, b.2.id = b.1

theorem Aligned.update {p : Project} (h : p.Aligned) (id : String) {f : Sprite → Sprite}
    (hf : ∀ s, (f s).id = s.id) : Aligned { p with stage := p.stage.updateSprite id f } := by
  cases hs : p.stage.sprite? id with
  | none =>
    rw [Stage.updateSprite_of_none hs]
    exact h
  | some s =>
    have he := Stage.updateSprite_sprites hs f
    refine ⟨?_, ?_⟩
    · rw [he, Table.keys_insert hs]
      exact h.keys
    · rw [he]
      exact Table.forall_insert ((hf s).trans (h.ids _ (Table.mem_of_get? hs))) h.ids

theorem Aligned.map {p : Project} (h : p.Aligned) {f : Sprite → Sprite}
    (hf : ∀ s, (f s).id = s.id) {s : Stage} (hs : s.sprites = p.stage.sprites.mapValues f) :
    Aligned { p with stage := s } := by
  refine ⟨?_, ?_⟩
  · rw [hs, Table.keys_mapValues]
    exact h.keys
  · rw [hs]
    exact Table.forall_mapValues fun b hb => (hf b.2).trans (h.ids b hb)

theorem Aligned.insertSprite {p : Project} (h : p.Aligned) (costume : String) :
    (p.insertSprite costume).1.Aligned :=
  ⟨Table.keys_insert_congr h.keys .., Table.forall_insert rfl h.ids⟩

theorem Aligned.delete {p : Project} (h : p.Aligned) (id : String) :
    Aligned { p with
      stage := { p.stage with sprites := p.stage.sprites.erase id }
      scripts := p.scripts.erase id } := by
  refine ⟨?_, fun b hb => h.ids b (List.mem_of_mem_filter hb)⟩
  rw [Table.keys_erase, Table.keys_erase, h.keys]

theorem Act.aligned {p p' : Project} (h : p.Act p') (hp : p.Aligned) : p'.Aligned := by
  cases h with
  | aside h =>
    refine ⟨?_, ?_⟩
    · rw [h.sprites, h.keys]
      exact hp.keys
    · rw [h.sprites]
      exact hp.ids
  | change id hf => exact hp.update id hf.id
  | create kind prompt texture => exact ⟨hp.keys, hp.ids⟩
  | hush => exact hp.map (f := Sprite.hush) (fun _ => rfl) rfl

theorem Acts.aligned {p p' : Project} (h : p.Acts p') (hp : p.Aligned) : p'.Aligned := by
  induction h with
  | refl => exact hp
  | tail _ ha ih => exact ha.aligned ih

theorem Acts.counters {p p' : Project} (h : p.Acts p') :
    p'.lastSprite = p.lastSprite ∧ p.stage.Grown p'.stage := by
  induction h with
  | refl => exact ⟨rfl, .of_eq rfl rfl⟩
  | tail _ ha ih =>
    obtain ⟨hn, hg⟩ := ih
    cases ha with
    | aside h => exact ⟨h.lastSprite.trans hn, hg.trans (.of_eq h.objects h.lastObject)⟩
    | change id hf => exact ⟨hn, hg.trans (Stage.updateSprite_grown ..)⟩
    | create kind prompt texture => exact ⟨hn, hg.trans (Stage.addObject_grown ..)⟩
    | hush => exact ⟨hn, hg.trans (.of_eq rfl rfl)⟩

theorem Dealt.aligned {p p' : Project} {e : Event} (h : p.Dealt e p')
    (he : ∀ id f, e.byHand? = some (id, f) → ∀ s, (f s).id = s.id) (hp : p.Aligned) :
    p'.Aligned := by
  cases h with
  | adds costume => exact hp.insertSprite costume
  | deletes h => exact hp.delete _
  | hand hb hs => exact hp.update _ (he _ _ hb)
  | reset => exact hp.map (f := Sprite.reset) (fun _ => rfl) rfl
  | acts hb h => exact Acts.aligned h hp

theorem Dealt.objects {p p' : Project} {e : Event} (h : p.Dealt e p') :
    p.stage.Grown p'.stage ∨
      p'.stage.objects = [] ∧ p'.stage.lastObject = p.stage.lastObject := by
  cases h with
  | adds costume => exact .inl (.of_eq rfl rfl)
  | deletes h => exact .inl (.of_eq rfl rfl)
  | hand hb hs => exact .inl (Stage.updateSprite_grown ..)
  | reset => exact .inr ⟨rfl, rfl⟩
  | acts hb h => exact .inl h.counters.2

theorem Dealt.lastSprite_le {p p' : Project} {e : Event} (h : p.Dealt e p') :
    p.lastSprite ≤ p'.lastSprite := by
  cases h with
  | adds costume => exact Nat.le_succ _
  | acts hb h => exact h.counters.1.ge
  | _ => exact Nat.le_refl _

def spriteId (n : Nat) : String :=
  "sprite-" ++ decimal n

/-- The ids of sprites and of objects that were given so far, for a project that has come to `p`. -/
structure Registered (sprites objects : List String) (p : Project) : Prop where
  aligned : p.Aligned
  sprites_issued : Issued spriteId p.lastSprite sprites
  objects_issued : Issued Stage.objectId p.stage.lastObject objects
  onStage : (p.stage.objects.map (·.id)).Sublist objects

end Project

/-- The objects that have come onto a stage. -/
def Stage.newObjects (s s' : Stage) : List Object :=
  if s.objects <+: s'.objects then s'.objects.drop s.objects.length else s'.objects

theorem Stage.newObjects_append {s s' : Stage} {new : List Object}
    (h : s'.objects = s.objects ++ new) : s.newObjects s' = new := by
  have hp : s.objects <+: s'.objects := ⟨new, h.symm⟩
  rw [newObjects, if_pos hp, h, List.drop_left]

theorem Stage.newObjects_of_nil {s s' : Stage} (h : s'.objects = []) : s.newObjects s' = [] := by
  unfold newObjects
  rw [h]
  split
  · exact List.drop_nil
  · rfl

namespace Machine

/-- The id that an event gives to a sprite. -/
def spriteIdsBy (m : Machine) (e : Event) (_ : Machine) : List String :=
  match e with
  | .edit (.addSprite costume) => [(m.world.project.insertSprite costume).2]
  | _ => []

/-- The ids of the objects that an event puts on the stage. -/
def objectIdsBy (m : Machine) (_ : Event) (m' : Machine) : List String :=
  (m.stage.newObjects m'.stage).map (·.id)

theorem objects_next {m m' : Machine} (hm : m.Tidy) {e : Event} (h : m.next? e = some m')
    {objects : List String} (hi : Issued Stage.objectId m.stage.lastObject objects)
    (hs : (m.stage.objects.map (·.id)).Sublist objects) :
    Issued Stage.objectId m'.stage.lastObject (objects ++ objectIdsBy m e m') ∧
      (m'.stage.objects.map (·.id)).Sublist (objects ++ objectIdsBy m e m') := by
  have hd : m.stage.Grown m'.stage ∨
      m'.stage.objects = [] ∧ m'.stage.lastObject = m.stage.lastObject :=
    (next?_dealt hm h).objects
  unfold objectIdsBy
  rcases hd with ⟨new, ho, hl, hn⟩ | ⟨ho, hl⟩
  · rw [Stage.newObjects_append ho]
    refine ⟨?_, ?_⟩
    · rw [hn, hl]
      exact hi.next (append_digits_injective "3d-") _
    · rw [ho, List.map_append]
      exact hs.append (.refl _)
  · rw [Stage.newObjects_of_nil ho, List.map_nil, List.append_nil, hl, ho]
    exact ⟨hi, List.nil_sublist _⟩

theorem sprites_next {m m' : Machine} (hm : m.Tidy) {e : Event} (h : m.next? e = some m')
    {sprites : List String}
    (hi : Issued Project.spriteId m.world.project.lastSprite sprites) :
    Issued Project.spriteId m'.world.project.lastSprite (sprites ++ spriteIdsBy m e m') := by
  have hold (hnone : spriteIdsBy m e m' = []) :
      Issued Project.spriteId m'.world.project.lastSprite (sprites ++ spriteIdsBy m e m') := by
    rw [hnone, List.append_nil]
    exact hi.mono (next?_dealt hm h).lastSprite_le
  cases e with
  | edit e =>
    cases e with
    | addSprite costume =>
      simp only [next?] at h
      split at h
      · cases h
        exact hi.next (append_digits_injective "sprite-") 1
      · cases h
    | _ => exact hold rfl
  | _ => exact hold rfl

theorem registered_next {m m' : Machine} (hm : m.Tidy) {e : Event} (h : m.next? e = some m')
    (he : ∀ id f, e.byHand? = some (id, f) → ∀ s, (f s).id = s.id) {sprites objects : List String}
    (hr : m.world.project.Registered sprites objects) :
    m'.world.project.Registered (sprites ++ spriteIdsBy m e m')
      (objects ++ objectIdsBy m e m') := by
  obtain ⟨hissued, hstage⟩ := objects_next hm h hr.objects_issued hr.onStage
  exact ⟨(next?_dealt hm h).aligned he hr.aligned, sprites_next hm h hr.sprites_issued, hissued,
    hstage⟩

theorem keepsId_of_mem {es : List Event}
    (h : ∀ id f, .change id f ∈ es → ∀ s, (f s).id = s.id) {e : Event} (he : e ∈ es) (id : String)
    (f : Sprite → Sprite) (hf : e.byHand? = some (id, f)) (s : Sprite) : (f s).id = s.id := by
  cases e with
  | change id' f' =>
    cases hf
    exact h id f he s
  | obey c =>
    cases c with
    | editSprite id' edit =>
      cases hf
      rfl
    | _ => cases hf
  | _ => cases hf

theorem initial_registered {p : Project} (hp : p = .empty ∨ p = .initial) :
    p.Registered p.scripts.keys [] := by
  have hempty : Project.empty.Aligned := ⟨rfl, fun b hb => absurd hb List.not_mem_nil⟩
  have hnone (name : Nat → String) : Issued name 0 [] :=
    ⟨List.nodup_nil, fun id hid => absurd hid List.not_mem_nil⟩
  rcases hp with rfl | rfl
  · exact ⟨hempty, hnone _, hnone _, .refl _⟩
  · refine ⟨hempty.insertSprite _, ?_, hnone _, .refl _⟩
    exact (hnone _).next (append_digits_injective "sprite-") 1

/-- A project and its stage have the same sprites in the same order and under their own ids, and
no sprite and no object is given an id that was given before. -/
theorem ids_agree_and_are_never_reused {p : Project} (hp : p = .empty ∨ p = .initial)
    {options : Options} {services : Services} {es : List Event} {m : Machine}
    (hes : ∀ id f, .change id f ∈ es → ∀ s, (f s).id = s.id)
    (h : (create p options services).after es = some m) :
    m.stage.sprites.keys = m.world.project.scripts.keys ∧
    (∀ b ∈ m.stage.sprites, b.2.id = b.1) ∧
    (p.scripts.keys ++ (create p options services).gather spriteIdsBy es).Nodup ∧
    (m.stage.objects.map (·.id)).Nodup ∧
    ((create p options services).gather objectIdsBy es).Nodup := by
  have hr : m.world.project.Registered
      (p.scripts.keys ++ (create p options services).gather spriteIdsBy es)
      ((create p options services).gather objectIdsBy es) := by
    revert hes
    refine after_induction (P := fun es m =>
      (∀ id f, .change id f ∈ es → ∀ s, (f s).id = s.id) → m.world.project.Registered
        (p.scripts.keys ++ (create p options services).gather spriteIdsBy es)
        ((create p options services).gather objectIdsBy es)) ?_ ?_ h
    · intro _
      simp only [gather, List.append_nil]
      exact initial_registered hp
    · intro es m e m' hb ih he hes
      have hold := ih fun id f hf => hes id f (List.mem_append_left _ hf)
      rw [gather_snoc hb he, gather_snoc hb he, ← List.append_assoc]
      exact registered_next ((create_tidy p options services).after hb) he
        (keepsId_of_mem hes (by simp)) hold
  exact ⟨hr.aligned.keys, hr.aligned.ids, hr.sprites_issued.nodup,
    hr.objects_issued.nodup.sublist hr.onStage, hr.objects_issued.nodup⟩

/-- A sprite gives way to another, and an object to one that comes after a reset. -/
def successions : List Event :=
  [.edit (.deleteSprite "sprite-1"), .edit (.addSprite defaultCostume),
    .obey (.addObject .box "a box" "stone"), .obey .resetStage,
    .obey (.addObject .box "a box" "stone")]

theorem ids_never_reused_by_successors :
    ∃ m, (create .initial {} {}).after successions = some m ∧
      m.stage.sprites.keys = m.world.project.scripts.keys ∧
      m.world.project.scripts.keys = ["sprite-2"] ∧ m.stage.objects.map (·.id) = ["3d-2"] ∧
      (Project.initial.scripts.keys ++
        (create .initial {} {}).gather spriteIdsBy successions).Nodup ∧
      ((create .initial {} {}).gather objectIdsBy successions).Nodup := by
  have he : ((create .initial {} {}).after successions).map (fun m =>
      (m.world.project.scripts.keys, m.stage.objects.map (·.id))) =
      some (["sprite-2"], ["3d-2"]) := by
    decide +kernel
  obtain ⟨m, hm, he⟩ := Option.map_eq_some_iff.mp he
  simp only [Prod.mk.injEq] at he
  have hes : ∀ id f, .change id f ∈ successions → ∀ s, (f s).id = s.id := by
    simp [successions]
  obtain ⟨hkeys, -, hsprites, -, hobjects⟩ := ids_agree_and_are_never_reused (.inr rfl) hes hm
  exact ⟨m, hm, hkeys, he.1, he.2, hsprites, hobjects⟩

end Machine

end BlockScript

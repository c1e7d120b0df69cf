import BlockScript.Proofs.Stage.Touch

/-! Frozen stages: nothing on them changes, but for speech that is taken away. -/

namespace BlockScript

namespace Stage

/-- The same sprite, except that it may have fallen silent. -/
def Hushed (b b' : String × Sprite) : Prop :=
  b'.1 = b.1 ∧ b'.2.hush = b.2.hush ∧ (b'.2.speech = b.2.speech ∨ b'.2.speech = none)

structure Frozen (s s' : Stage) : Prop where
  values : s'.«variables» = s.«variables»
  monitors : s'.monitors = s.monitors
  trail : s'.trail = s.trail
  objects : s'.objects = s.objects
  input : s'.input = s.input
  sprites : List.Forall₂ Hushed s.sprites s'.sprites

theorem Hushed.refl (b : String × Sprite) : Hushed b b :=
  ⟨rfl, rfl, .inl rfl⟩

theorem Hushed.trans {b b' b'' : String × Sprite} (h : Hushed b b') (h' : Hushed b' b'') :
    Hushed b b'' := by
  refine ⟨h'.1.trans h.1, h'.2.1.trans h.2.1, ?_⟩
  rcases h'.2.2 with hs | hs
  · rw [hs]
    exact h.2.2
  · exact .inr hs

theorem forall₂_hushed_trans {l l' l'' : List (String × Sprite)} (h : List.Forall₂ Hushed l l')
    (h' : List.Forall₂ Hushed l' l'') : List.Forall₂ Hushed l l'' := by
  induction h generalizing l'' with
  | nil => exact h'
  | cons hb _ ih =>
    cases h' with
    | cons hb' hl' => exact .cons (hb.trans hb') (ih hl')

theorem Frozen.refl (s : Stage) : s.Frozen s :=
  ⟨rfl, rfl, rfl, rfl, rfl, List.forall₂_same.mpr fun b _ => .refl b⟩

theorem Frozen.trans {s s' s'' : Stage} (h : s.Frozen s') (h' : s'.Frozen s'') : s.Frozen s'' :=
  ⟨h'.values.trans h.values, h'.monitors.trans h.monitors, h'.trail.trans h.trail,
    h'.objects.trans h.objects, h'.input.trans h.input, forall₂_hushed_trans h.sprites h'.sprites⟩

theorem hushed_inRange {b b' : String × Sprite} (h : Hushed b b') (hb : b.2.InRange) :
    b'.2.InRange := by
  have hh : b'.2.hush.InRange := by
    rw [h.2.1]
    exact hb.hush
  -- Bringing a sprite into range does not look at its speech.
  have hn : b'.2.normalize = { b'.2.hush.normalize with speech := b'.2.speech } := rfl
  rw [Sprite.InRange, hn, hh]
  rfl

theorem Frozen.inRange {s s' : Stage} (h : s.Frozen s') (hs : s.InRange) : s'.InRange := by
  have hall {l l' : List (String × Sprite)} (hl : List.Forall₂ Hushed l l')
      (hr : ∀ b ∈ l, b.2.InRange) : ∀ b ∈ l', b.2.InRange := by
    induction hl with
    | nil => exact hr
    | cons hb _ ih =>
      rw [List.forall_mem_cons] at hr ⊢
      exact ⟨hushed_inRange hb hr.1, ih hr.2⟩
  exact hall h.sprites hs

theorem clearSpeech_frozen (s : Stage) : s.Frozen { s.clearSpeech with prompts := [] } := by
  have hs : List.Forall₂ Hushed s.sprites (s.sprites.mapValues Sprite.hush) := by
    rw [Table.mapValues, List.forall₂_map_right_iff, List.forall₂_same]
    exact fun b _ => ⟨rfl, rfl, .inr rfl⟩
  exact ⟨rfl, rfl, rfl, rfl, rfl, hs⟩

/-- A change that at most hushes a sprite draws nothing and leaves the rest of it alone. -/
theorem updateSprite_frozen {s : Stage} (h : s.InRange) (id : String) {f : Sprite → Sprite}
    (hf : ∀ a, f a = a ∨ f a = a.hush) : s.Frozen (s.updateSprite id f) := by
  unfold updateSprite
  split
  · exact .refl s
  · rename_i before hb
    have hin : before.InRange := h _ (Table.mem_of_get? hb)
    have hn : (f before).normalize = f before := by
      rcases hf before with he | he
      · rw [he]
        exact hin
      · rw [he]
        exact hin.hush
    have hd : drawn before (f before) = [] := by
      rcases hf before with he | he
      · rw [he]
        exact drawn_self hin
      · rw [he]
        simp [drawn, Sprite.hush, hin.same_position]
    refine ⟨rfl, rfl, ?_, rfl, rfl, ?_⟩
    · simp only [hn, hd, List.append_nil]
    · simp only [hn]
      refine Table.forall₂_insert Hushed.refl hb ⟨rfl, ?_, ?_⟩
      · rcases hf before with he | he
        · rw [he]
        · rw [he]
          rfl
      · rcases hf before with he | he
        · exact .inl (congrArg Sprite.speech he)
        · exact .inr (congrArg Sprite.speech he)

end Stage

end BlockScript

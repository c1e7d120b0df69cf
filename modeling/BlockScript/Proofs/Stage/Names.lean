import BlockScript.Proofs.Stage.Touch

/-! The names of variables and of monitors. Whatever writes to a stage overwrites a binding in its
place or adds one at the end. -/

namespace BlockScript.Stage

/-- Names are only added, at the end. -/
structure KeepsNames (s s' : Stage) : Prop where
  bound : s.«variables».keys <+: s'.«variables».keys
  monitors : s.monitors.keys <+: s'.monitors.keys

namespace KeepsNames

theorem refl (s : Stage) : s.KeepsNames s :=
  ⟨List.prefix_rfl, List.prefix_rfl⟩

theorem of_eq {s s' : Stage} (hv : s'.«variables» = s.«variables»)
    (hm : s'.monitors = s.monitors) : s.KeepsNames s' := by
  refine ⟨?_, ?_⟩
  · rw [hv]
  · rw [hm]

theorem trans {s s' s'' : Stage} (h : s.KeepsNames s') (h' : s'.KeepsNames s'') :
    s.KeepsNames s'' :=
  ⟨h.bound.trans h'.bound, h.monitors.trans h'.monitors⟩

end KeepsNames

theorem setVariable_keepsNames (s : Stage) (name : String) (value : Value) :
    s.KeepsNames (s.setVariable name value) :=
  ⟨Table.keys_prefix_insert .., List.prefix_rfl⟩

theorem setMonitor_keepsNames (s : Stage) (name : String) (shown : Bool) :
    s.KeepsNames { s with monitors := s.monitors.insert name shown } :=
  ⟨List.prefix_rfl, Table.keys_prefix_insert ..⟩

theorem updateSprite_keepsNames (s : Stage) (id : String) (f : Sprite → Sprite) :
    s.KeepsNames (s.updateSprite id f) := by
  unfold updateSprite
  split <;> exact .of_eq rfl rfl

end BlockScript.Stage

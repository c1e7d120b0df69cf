import BlockScript.Expression
import Mathlib

/-! What expressions can tell apart. An expression that avoids some kinds of reporters has the same
value in any two scenes that differ only in what those kinds look at. -/

namespace BlockScript

@[induction_eliminator]
theorem Param.induction {P : Param → Prop} (literal : ∀ v, P (.literal v))
    («variable» : ∀ name, P (.variable name))
    (reporter : ∀ kind params, (∀ b ∈ params, P b.2) → P (.reporter kind params)) (p : Param) :
    P p :=
  match p with
  | .literal v => literal v
  | .variable name => «variable» name
  | .reporter kind params =>
    reporter kind params fun b _ => Param.induction literal «variable» reporter b.2
termination_by sizeOf p
decreasing_by
  have hb := List.sizeOf_lt_of_mem ‹b ∈ params›
  obtain ⟨name, q⟩ := b
  simp only [Prod.mk.sizeOf_spec, Param.reporter.sizeOf_spec] at hb ⊢
  omega

theorem paramValues_eq_map (s : Scene) (cap depth : Nat) (params : List (String × Param)) :
    paramValues s cap depth params = params.map fun b => (b.1, b.2.valueAt s cap depth) := by
  induction params with
  | nil => rfl
  | cons b rest ih => rw [paramValues, ih, List.map_cons]

mutual

/-- Whether no reporter of the kinds `banned` stands in the parameter. A reference to a variable
counts as a reporter that reads one. -/
def Param.avoids (banned : List BlockKind) : Param → Bool
  | .literal _ => true
  | .variable _ => !banned.contains .readVariable
  | .reporter kind params => !banned.contains kind && allAvoid banned params

def allAvoid (banned : List BlockKind) : List (String × Param) → Bool
  | [] => true
  | (_, p) :: rest => p.avoids banned && allAvoid banned rest

end

theorem allAvoid_iff {banned : List BlockKind} {params : List (String × Param)} :
    allAvoid banned params = true ↔ ∀ b ∈ params, b.2.avoids banned = true := by
  induction params with
  | nil => simp [allAvoid]
  | cons b rest ih => rw [allAvoid, Bool.and_eq_true, ih, List.forall_mem_cons]

theorem Param.avoids_reporter_iff {banned : List BlockKind} {kind : BlockKind}
    {params : List (String × Param)} :
    (Param.reporter kind params).avoids banned = true ↔
      kind ∉ banned ∧ ∀ b ∈ params, b.2.avoids banned = true := by
  rw [avoids, Bool.and_eq_true, allAvoid_iff]
  simp

namespace Scene

/-- The two scenes look the same to every kind of reporter that is not one of `banned`. -/
structure Alike (banned : List BlockKind) (s s' : Scene) : Prop where
  sprite : s'.sprite = s.sprite
  input : s'.input = s.input
  valueOf : .readVariable ∉ banned ∨ .answer ∉ banned → s'.valueOf = s.valueOf
  pick : .pickRandom ∉ banned → s'.pick = s.pick

theorem Alike.report {banned : List BlockKind} {s s' : Scene} (h : Alike banned s s')
    {kind : BlockKind} (hk : kind ∉ banned) (arg : String → Value) :
    s'.report kind arg = s.report kind arg := by
  obtain ⟨sprite, valueOf, input, pick⟩ := s
  obtain ⟨sprite', valueOf', input', pick'⟩ := s'
  obtain ⟨rfl, rfl, hvalue, hpick⟩ := h
  cases kind with
  | answer => exact congrFun (hvalue (.inr hk)) answerName
  | readVariable => exact congrFun (hvalue (.inl hk)) (arg "variable").toText
  | pickRandom =>
    cases hpick hk
    rfl
  | _ => rfl

theorem paramValues_congr {s s' : Scene} {cap depth : Nat}
    {params : List (String × Param)}
    (h : ∀ b ∈ params, b.2.valueAt s' cap depth = b.2.valueAt s cap depth) :
    paramValues s' cap depth params = paramValues s cap depth params := by
  rw [paramValues_eq_map, paramValues_eq_map]
  exact List.map_congr_left fun b hb => Prod.ext rfl (h b hb)

/-- Every kind of reporter that is not one of `banned` has the same value in the two scenes. -/
def ReportsAlike (banned : List BlockKind) (s s' : Scene) : Prop :=
  ∀ kind ∉ banned, ∀ arg, s'.report kind arg = s.report kind arg

theorem ReportsAlike.valueAt {banned : List BlockKind} {s s' : Scene} (h : ReportsAlike banned s s')
    (cap depth : Nat) {p : Param} (hp : p.avoids banned = true) :
    p.valueAt s' cap depth = p.valueAt s cap depth := by
  induction p generalizing depth with
  | literal v => rfl
  | «variable» name =>
    have hk : BlockKind.readVariable ∉ banned := by simpa [Param.avoids] using hp
    -- A reference reads what a reporter does whose name is given by a literal.
    exact h .readVariable hk fun _ => .text name
  | reporter kind params ih =>
    obtain ⟨hk, hparams⟩ := Param.avoids_reporter_iff.mp hp
    have hvalues := paramValues_congr fun b hb => ih b hb (depth + 1) (hparams b hb)
    simp only [Param.valueAt, hvalues, h kind hk]

theorem ReportsAlike.resolve {banned : List BlockKind} {s s' : Scene} (h : ReportsAlike banned s s')
    (cap : Nat) {p : Option Param} (hp : ∀ q ∈ p, q.avoids banned = true) :
    s'.resolve cap p = s.resolve cap p := by
  cases p with
  | none => rfl
  | some p => exact h.valueAt cap 0 (hp p rfl)

theorem ReportsAlike.evaluate {banned : List BlockKind} {s s' : Scene}
    (h : ReportsAlike banned s s') (cap : Nat) {kind : BlockKind} {params : Table Param}
    (hp : (Param.reporter kind params).avoids banned = true) :
    s'.evaluate cap kind params = s.evaluate cap kind params := by
  obtain ⟨hk, hparams⟩ := Param.avoids_reporter_iff.mp hp
  have hvalues := paramValues_congr fun b hb => h.valueAt cap 0 (hparams b hb)
  simp only [Scene.evaluate, hvalues, h kind hk]

theorem Alike.reports {banned : List BlockKind} {s s' : Scene} (h : Alike banned s s') :
    ReportsAlike banned s s' :=
  fun _ hk => h.report hk

theorem Alike.valueAt {banned : List BlockKind} {s s' : Scene} (h : Alike banned s s')
    (cap depth : Nat) {p : Param} (hp : p.avoids banned = true) :
    p.valueAt s' cap depth = p.valueAt s cap depth :=
  h.reports.valueAt cap depth hp

theorem Alike.resolve {banned : List BlockKind} {s s' : Scene} (h : Alike banned s s')
    (cap : Nat) {p : Option Param} (hp : ∀ q ∈ p, q.avoids banned = true) :
    s'.resolve cap p = s.resolve cap p :=
  h.reports.resolve cap hp

theorem Alike.evaluate {banned : List BlockKind} {s s' : Scene} (h : Alike banned s s')
    (cap : Nat) {kind : BlockKind} {params : Table Param}
    (hp : (Param.reporter kind params).avoids banned = true) :
    s'.evaluate cap kind params = s.evaluate cap kind params :=
  h.reports.evaluate cap hp

end Scene

end BlockScript

import BlockScript.Proofs.Expression.Sight

/-! The cap on nested expressions. Evaluation under a cap is evaluation without one of the
expression that is cut off at the cap. -/

namespace BlockScript

mutual

/-- The value of a parameter without any limit on nesting. -/
def Param.meaning (s : Scene) : Param → Value
  | .literal v => v
  | .variable name => s.valueOf name
  | .reporter kind params =>
    if kind.shape = .reporter then s.report kind (argument (meanings s params)) else .empty

def meanings (s : Scene) : List (String × Param) → Table Value
  | [] => []
  | (name, p) :: rest => (name, p.meaning s) :: meanings s rest

end

mutual

/-- The parameter with the empty text in place of every reporter nested deeper than `cap` levels,
where an outermost reporter is at level `level`. -/
def Param.cutAt (cap level : Nat) : Param → Param
  | .literal v => .literal v
  | .variable name => .variable name
  | .reporter kind params =>
    if cap < level then .literal .empty else .reporter kind (cutAllAt cap (level + 1) params)

def cutAllAt (cap level : Nat) : List (String × Param) → List (String × Param)
  | [] => []
  | (name, p) :: rest => (name, p.cutAt cap level) :: cutAllAt cap level rest

end

mutual

/-- How many reporters stand inside each other. -/
def Param.nesting : Param → Nat
  | .literal _ => 0
  | .variable _ => 0
  | .reporter _ params => deepest params + 1

def deepest : List (String × Param) → Nat
  | [] => 0
  | (_, p) :: rest => max p.nesting (deepest rest)

end

theorem meanings_eq_map (s : Scene) (params : List (String × Param)) :
    meanings s params = params.map fun b => (b.1, b.2.meaning s) := by
  induction params with
  | nil => rfl
  | cons b rest ih => rw [meanings, ih, List.map_cons]

theorem cutAllAt_eq_map (cap level : Nat) (params : List (String × Param)) :
    cutAllAt cap level params = params.map fun b => (b.1, b.2.cutAt cap level) := by
  induction params with
  | nil => rfl
  | cons b rest ih => rw [cutAllAt, ih, List.map_cons]

theorem nesting_le_deepest {params : List (String × Param)} {b : String × Param}
    (h : b ∈ params) : b.2.nesting ≤ deepest params := by
  induction params with
  | nil => cases h
  | cons c rest ih =>
    rw [deepest]
    rcases List.mem_cons.mp h with rfl | h
    · exact Nat.le_max_left ..
    · exact Nat.le_trans (ih h) (Nat.le_max_right ..)

theorem paramValues_eq_meanings_cutAllAt {s : Scene} {cap depth : Nat}
    {params : List (String × Param)}
    (h : ∀ b ∈ params, b.2.valueAt s cap depth = (b.2.cutAt cap (depth + 1)).meaning s) :
    paramValues s cap depth params = meanings s (cutAllAt cap (depth + 1) params) := by
  rw [paramValues_eq_map, meanings_eq_map, cutAllAt_eq_map, List.map_map]
  exact List.map_congr_left fun b hb => Prod.ext rfl (h b hb)

/-- A reporter in a block at level `depth` is itself one level deeper. -/
theorem Param.valueAt_eq_meaning_cutAt (s : Scene) (cap depth : Nat) (p : Param) :
    p.valueAt s cap depth = (p.cutAt cap (depth + 1)).meaning s := by
  induction p generalizing depth with
  | literal v => rfl
  | «variable» name => rfl
  | reporter kind params ih =>
    by_cases hcap : cap < depth + 1
    · rw [valueAt, cutAt, if_pos hcap, if_pos hcap, meaning]
    · have hparams := paramValues_eq_meanings_cutAllAt fun b hb => ih b hb (depth + 1)
      rw [valueAt, cutAt, if_neg hcap, if_neg hcap, meaning, hparams]

theorem Scene.evaluate_eq_meaning_cutAt (s : Scene) (cap : Nat) (kind : BlockKind)
    (params : Table Param) :
    s.evaluate cap kind params = ((Param.reporter kind params).cutAt cap 0).meaning s := by
  have hparams : paramValues s cap 0 params = meanings s (cutAllAt cap 1 params) :=
    paramValues_eq_meanings_cutAllAt fun b _ => b.2.valueAt_eq_meaning_cutAt s cap 0
  rw [evaluate, Param.cutAt, if_neg (Nat.not_lt_zero cap), Param.meaning, hparams]

theorem Param.cutAt_of_nesting_le {cap level : Nat} {p : Param} (h : p.nesting + level ≤ cap + 1) :
    p.cutAt cap level = p := by
  induction p generalizing level with
  | literal v => rfl
  | «variable» name => rfl
  | reporter kind params ih =>
    rw [nesting] at h
    have hparams : cutAllAt cap (level + 1) params = params := by
      rw [cutAllAt_eq_map]
      refine (List.map_congr_left fun b hb => ?_).trans (List.map_id params)
      have hb' := nesting_le_deepest hb
      exact Prod.ext rfl (ih b hb (by omega))
    rw [cutAt, if_neg (by omega), hparams]

theorem Stage.scene_alike (s : Stage) (sprite : String) (pick pick' : Int → Int → Int) :
    (s.scene sprite pick).Alike [.pickRandom] (s.scene sprite pick') :=
  ⟨rfl, rfl, fun _ => rfl, fun h => absurd List.mem_cons_self h⟩

/-- Whatever the dice show, an expression without them has the value that evaluation without a cap
gives to the expression cut off at the cap. A parameter counts its outermost reporter as level one,
and a reporter that stands by itself counts as level zero. A cap at least as large as the nesting
cuts nothing off. -/
theorem capped_refines_uncapped (s : Stage) (sprite : String) (cap : Nat)
    (pick pick' : Int → Int → Int) :
    (∀ p : Param, p.avoids [.pickRandom] = true →
      (s.scene sprite pick).resolve cap (some p) =
          (p.cutAt cap 1).meaning (s.scene sprite pick') ∧
        (p.nesting ≤ cap →
          (s.scene sprite pick).resolve cap (some p) = p.meaning (s.scene sprite pick'))) ∧
    ∀ (kind : BlockKind) (params : Table Param),
      (Param.reporter kind params).avoids [.pickRandom] = true →
      (s.scene sprite pick).evaluate cap kind params =
          ((Param.reporter kind params).cutAt cap 0).meaning (s.scene sprite pick') ∧
        ((Param.reporter kind params).nesting ≤ cap + 1 →
          (s.scene sprite pick).evaluate cap kind params =
            (Param.reporter kind params).meaning (s.scene sprite pick')) := by
  have halike := s.scene_alike sprite pick' pick
  constructor
  · intro p hp
    have hcut : (s.scene sprite pick).resolve cap (some p) =
        (p.cutAt cap 1).meaning (s.scene sprite pick') :=
      (halike.valueAt cap 0 hp).trans (p.valueAt_eq_meaning_cutAt _ cap 0)
    refine ⟨hcut, fun hn => ?_⟩
    rw [hcut, Param.cutAt_of_nesting_le (by omega)]
  · intro kind params hp
    have hcut : (s.scene sprite pick).evaluate cap kind params =
        ((Param.reporter kind params).cutAt cap 0).meaning (s.scene sprite pick') := by
      rw [← Scene.evaluate_eq_meaning_cutAt]
      exact halike.evaluate cap hp
    refine ⟨hcut, fun hn => ?_⟩
    rw [hcut, Param.cutAt_of_nesting_le (by omega)]

/-- One plus one plus one and so on, where each sum stands inside the one before it. -/
def Param.sumOfOnes : Nat → Param
  | 0 => .literal (.number 1)
  | n + 1 => .reporter .add [("NUM1", .literal (.number 1)), ("NUM2", sumOfOnes n)]

/-- Five sums inside each other. A cap of three keeps three of them, one more if the outermost
stands by itself, and a cap of five keeps them all. -/
theorem capped_refines_uncapped_sum :
    let scene := Stage.initial.scene "sprite-1" fun _ high => high
    let inner : Table Param := [("NUM1", .literal (.number 1)), ("NUM2", .sumOfOnes 4)]
    (Param.sumOfOnes 5).avoids [.pickRandom] = true ∧ (Param.sumOfOnes 5).nesting ≤ 5 ∧
      scene.resolve 3 (some (.sumOfOnes 5)) = .number 3 ∧
      scene.resolve 5 (some (.sumOfOnes 5)) = .number 6 ∧
      scene.evaluate 3 .add inner = .number 4 := by
  have havoid : (Param.sumOfOnes 5).avoids [.pickRandom] = true := by decide +kernel
  have hnest : (Param.sumOfOnes 5).nesting ≤ 5 := by decide +kernel
  have hthree := capped_refines_uncapped .initial "sprite-1" 3 (fun _ high => high) fun low _ => low
  have hfive := capped_refines_uncapped .initial "sprite-1" 5 (fun _ high => high) fun low _ => low
  refine ⟨havoid, hnest, ?_, ?_, ?_⟩
  · rw [(hthree.1 _ havoid).1]
    decide +kernel
  · rw [(hfive.1 _ havoid).2 hnest]
    decide +kernel
  · rw [(hthree.2 .add _ havoid).1]
    decide +kernel

end BlockScript

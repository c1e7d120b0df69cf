import BlockScript.Proofs.Expression.Cap
import BlockScript.Proofs.Number.Defined

/-! The order of values. It is total on numbers and text taken together, so of the three comparison
reporters exactly one is true of any two operands. -/

namespace BlockScript

namespace Value

theorem orderOf_self (x : Float) : orderOf x x = .eq := by
  have hirrefl : ¬ x < x := fun h => Number.not_lt_of_le (Number.le_of_lt h) h
  rw [orderOf, if_neg hirrefl, if_neg hirrefl]

theorem orderOf_swap (x y : Float) : orderOf y x = (orderOf x y).swap := by
  unfold orderOf
  by_cases hlt : x < y
  · have hnot : ¬ y < x := Number.not_lt_of_le (Number.le_of_lt hlt)
    rw [if_neg hnot, if_pos hlt, if_pos hlt]
    rfl
  · by_cases hgt : y < x
    · rw [if_pos hgt, if_neg hlt, if_pos hgt]
      rfl
    · rw [if_neg hgt, if_neg hlt, if_neg hlt, if_neg hgt]
      rfl

theorem textOrder_self (s : String) : textOrder s s = .eq := by
  rw [textOrder]
  exact Std.ReflCmp.compare_self

theorem textOrder_swap (s t : String) : textOrder t s = (textOrder s t).swap := by
  rw [textOrder, textOrder]
  exact Std.OrientedCmp.eq_swap

/-- Both orders take their operands as numbers or both as text. -/
theorem order_swap (a b : Value) : b.order a = (a.order b).swap := by
  unfold order
  cases a.number? with
  | none =>
    cases b.number? with
    | none | some => exact textOrder_swap ..
  | some x =>
    cases b.number? with
    | none => exact textOrder_swap ..
    | some y => exact orderOf_swap x y

theorem order_self (a : Value) : a.order a = .eq := by
  unfold order
  cases a.number? with
  | none => exact textOrder_self _
  | some x => exact orderOf_self x

end Value

/-- The operands of a comparison, where an unbound one is missing. -/
structure Operands (params : Table Param) (p q : Option Param) : Prop where
  first : params.get? "OPERAND1" = p
  second : params.get? "OPERAND2" = q

/-- Of the three comparisons the one that goes with `o` is one, and the other two are zero. -/
structure Decides (o : Ordering) (value : BlockKind → Value) : Prop where
  greater : value .greater = .ofBool (o == .gt)
  less : value .less = .ofBool (o == .lt)
  equals : value .equals = .ofBool (o == .eq)

theorem Decides.congr {o : Ordering} {value value' : BlockKind → Value} (h : Decides o value)
    (he : ∀ kind ∈ [BlockKind.greater, .less, .equals], value' kind = value kind) :
    Decides o value' where
  greater := (he .greater (by simp)).trans h.greater
  less := (he .less (by simp)).trans h.less
  equals := (he .equals (by simp)).trans h.equals

theorem paramValues_get? (s : Scene) (cap depth : Nat) (params : Table Param) (name : String) :
    (paramValues s cap depth params).get? name =
      (params.get? name).map (·.valueAt s cap depth) := by
  induction params with
  | nil => rfl
  | cons b rest ih =>
    obtain ⟨key, p⟩ := b
    simp only [Table.get?, paramValues, List.lookup_cons] at ih ⊢
    split
    · rfl
    · exact ih

/-- The value of an operand of a block that is nested `depth` levels deep. -/
def Scene.operand (s : Scene) (cap depth : Nat) (p : Option Param) : Value :=
  (p.map (·.valueAt s cap depth)).getD .empty

theorem Scene.operand_eq_of_avoids (s : Stage) (sprite : String) (pick pick' : Int → Int → Int)
    (cap depth : Nat) {p : Option Param} (hp : ∀ x ∈ p, x.avoids [.pickRandom] = true) :
    (s.scene sprite pick').operand cap depth p = (s.scene sprite pick).operand cap depth p := by
  cases p with
  | none => rfl
  | some p => exact (s.scene_alike sprite pick pick').valueAt cap depth (hp p rfl)

theorem Operands.decides {params : Table Param} {p q : Option Param} (h : Operands params p q)
    (s : Scene) (cap depth : Nat) :
    Decides ((s.operand cap depth p).order (s.operand cap depth q))
      fun kind => s.report kind (argument (paramValues s cap depth params)) := by
  have hfirst : argument (paramValues s cap depth params) "OPERAND1" = s.operand cap depth p := by
    rw [argument, paramValues_get?, h.first, Scene.operand]
  have hsecond : argument (paramValues s cap depth params) "OPERAND2" = s.operand cap depth q := by
    rw [argument, paramValues_get?, h.second, Scene.operand]
  constructor <;> simp only [Scene.report, hfirst, hsecond]

/-- Whatever the dice show, the comparisons of `p` with `q` are decided by one order and those of
`q` with `p` by its reverse. -/
def Trichotomous (value : (Int → Int → Int) → Table Param → BlockKind → Value)
    (p q : Option Param) : Prop :=
  ∃ o : Ordering, ∀ (pick : Int → Int → Int) (params : Table Param),
    (Operands params p q → Decides o (value pick params)) ∧
    (Operands params q p → Decides o.swap (value pick params))

theorem trichotomous_of_report {s : Stage} {sprite : String} {cap : Nat} (depth : Nat)
    {p q : Option Param} (hp : ∀ x ∈ p, x.avoids [.pickRandom] = true)
    (hq : ∀ x ∈ q, x.avoids [.pickRandom] = true)
    {value : (Int → Int → Int) → Table Param → BlockKind → Value}
    (he : ∀ pick params, ∀ kind ∈ [BlockKind.greater, .less, .equals], value pick params kind =
      (s.scene sprite pick).report kind
        (argument (paramValues (s.scene sprite pick) cap depth params))) :
    Trichotomous value p q := by
  let scene := s.scene sprite fun low _ => low
  refine ⟨(scene.operand cap depth p).order (scene.operand cap depth q), fun pick params => ?_⟩
  have hpvalue : (s.scene sprite pick).operand cap depth p = scene.operand cap depth p :=
    Scene.operand_eq_of_avoids s sprite _ pick cap depth hp
  have hqvalue : (s.scene sprite pick).operand cap depth q = scene.operand cap depth q :=
    Scene.operand_eq_of_avoids s sprite _ pick cap depth hq
  constructor
  · intro h
    have hdecides := h.decides (s.scene sprite pick) cap depth
    rw [hpvalue, hqvalue] at hdecides
    exact hdecides.congr (he pick params)
  · intro h
    have hdecides := h.decides (s.scene sprite pick) cap depth
    rw [hpvalue, hqvalue, Value.order_swap] at hdecides
    exact hdecides.congr (he pick params)

theorem shape_of_comparison {kind : BlockKind}
    (h : kind ∈ [BlockKind.greater, .less, .equals]) : kind.shape = .reporter := by
  have h : kind = .greater ∨ kind = .less ∨ kind = .equals := by simpa using h
  rcases h with rfl | rfl | rfl <;> rfl

/-- The order of values reverses with its operands, and every value equals itself. So exactly one of
the comparisons of two operands without dice is one, and with the operands swapped `greater` and
`less` change places: in a block that stands by itself, and in a parameter when the cap lets a
reporter be evaluated there at all. -/
theorem comparisons_trichotomous :
    (∀ a b : Value, b.order a = (a.order b).swap ∧ a.order a = .eq) ∧
    ∀ (s : Stage) (sprite : String) (cap : Nat) (p q : Option Param),
      (∀ x ∈ p, x.avoids [.pickRandom] = true) → (∀ x ∈ q, x.avoids [.pickRandom] = true) →
      Trichotomous (fun pick params kind => (s.scene sprite pick).evaluate cap kind params) p q ∧
      (1 ≤ cap → Trichotomous (fun pick params kind =>
        (s.scene sprite pick).resolve cap (some (.reporter kind params))) p q) := by
  refine ⟨fun a b => ⟨Value.order_swap a b, Value.order_self a⟩, ?_⟩
  intro s sprite cap p q hp hq
  constructor
  · apply trichotomous_of_report 0 hp hq
    intro pick params kind hk
    rw [Scene.evaluate, if_pos (shape_of_comparison hk)]
  · intro hcap
    apply trichotomous_of_report 1 hp hq
    intro pick params kind hk
    rw [Scene.resolve, Param.valueAt, if_neg (by omega), if_pos (shape_of_comparison hk)]

def Param.hexTen : Param := .literal (.text " 0x0A ")

def Param.nine : Param :=
  .reporter .add [("NUM1", .literal (.number 4)), ("NUM2", .literal (.text "5"))]

/-- Ten, written in another way, against nine. -/
theorem comparisons_trichotomous_hex_and_sum :
    let scene := Stage.initial.scene "sprite-1" fun low _ => low
    let params : Table Param := [("OPERAND1", .hexTen), ("OPERAND2", .nine)]
    let swapped : Table Param := [("OPERAND1", .nine), ("OPERAND2", .hexTen)]
    (∀ x ∈ some Param.hexTen, x.avoids [.pickRandom] = true) ∧
      (∀ x ∈ some Param.nine, x.avoids [.pickRandom] = true) ∧ 1 ≤ 2 ∧
      Operands params (some .hexTen) (some .nine) ∧ Operands swapped (some .nine) (some .hexTen) ∧
      Decides .gt (fun kind => scene.evaluate 2 kind params) ∧
      Decides .lt (fun kind => scene.resolve 2 (some (.reporter kind swapped))) := by
  intro scene params swapped
  have hten : ∀ x ∈ some Param.hexTen, x.avoids [.pickRandom] = true := by
    rintro x ⟨⟩
    decide +kernel
  have hnine : ∀ x ∈ some Param.nine, x.avoids [.pickRandom] = true := by
    rintro x ⟨⟩
    decide +kernel
  have hparams : Operands params (some .hexTen) (some .nine) := ⟨rfl, rfl⟩
  have hswapped : Operands swapped (some .nine) (some .hexTen) := ⟨rfl, rfl⟩
  obtain ⟨⟨o, ho⟩, hnested⟩ :=
    comparisons_trichotomous.2 .initial "sprite-1" 2 (some .hexTen) (some .nine) hten hnine
  obtain ⟨o', ho'⟩ := hnested (by omega)
  have htop := (ho (fun low _ => low) params).1 hparams
  have hbelow := (ho' (fun low _ => low) swapped).2 hswapped
  refine ⟨hten, hnine, by omega, hparams, hswapped, ?_, ?_⟩
  · have hgreater : scene.evaluate 2 .greater params = .ofBool true := by decide +kernel
    cases o with
    | gt => exact htop
    | lt | eq => cases htop.greater.symm.trans hgreater
  · have hless : scene.resolve 2 (some (.reporter .less swapped)) = .ofBool true := by
      decide +kernel
    cases o' with
    | gt => exact hbelow
    | lt | eq => cases hbelow.less.symm.trans hless

end BlockScript

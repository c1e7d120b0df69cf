import BlockScript.Proofs.Expression.Sight

/-! What an expression sees of a stage: its own sprite, the values of the variables, the mouse and
the set of keys that are held down. -/

namespace BlockScript

namespace Stage

/-- The two stages look the same to the expressions of a sprite. Keys are compared as a set. -/
structure SameView (sprite : String) (s s' : Stage) : Prop where
  sprite : s'.sprite? sprite = s.sprite? sprite
  valueOf : ∀ name, s'.valueOf name = s.valueOf name
  mouse : s'.input.mouse = s.input.mouse
  keys : ∀ key, key ∈ s'.input.keys ↔ key ∈ s.input.keys

end Stage

theorem Input.isPressed_congr {i i' : Input} (h : ∀ key, key ∈ i'.keys ↔ key ∈ i.keys)
    (key : String) : i'.isPressed key = i.isPressed key := by
  have hempty : i'.keys = [] ↔ i.keys = [] := by
    simp only [List.eq_nil_iff_forall_not_mem, h]
  unfold isPressed
  split
  · rw [Bool.not_eq_eq_eq_not, Bool.not_not, Bool.eq_iff_iff, List.isEmpty_iff, List.isEmpty_iff,
      hempty]
  · rw [Bool.eq_iff_iff, List.contains_iff_mem, List.contains_iff_mem, h]

theorem Scene.reportsAlike_of_view {s s' : Scene} (hsprite : s'.sprite = s.sprite)
    (hvalue : s'.valueOf = s.valueOf) (hmouse : s'.input.mouse = s.input.mouse)
    (hkeys : ∀ key, key ∈ s'.input.keys ↔ key ∈ s.input.keys) :
    s.ReportsAlike [.pickRandom] s' := by
  intro kind hk arg
  obtain ⟨sprite, valueOf, ⟨mouse, keys⟩, pick⟩ := s
  obtain ⟨sprite', valueOf', ⟨mouse', keys'⟩, pick'⟩ := s'
  cases hsprite
  cases hvalue
  cases hmouse
  cases kind with
  | pickRandom => exact absurd List.mem_cons_self hk
  | keyPressed => exact congrArg Value.ofBool (Input.isPressed_congr hkeys (arg "key").toText)
  | _ => rfl

theorem Stage.SameView.reports {sprite : String} {s s' : Stage} (h : s.SameView sprite s')
    (pick pick' : Int → Int → Int) :
    (s.scene sprite pick).ReportsAlike [.pickRandom] (s'.scene sprite pick') :=
  Scene.reportsAlike_of_view h.sprite (funext h.valueOf) h.mouse h.keys

/-- An expression without dice has the same value on any two stages that give its sprite the same
view, whatever the dice show and whatever else is on the stages. -/
theorem Stage.expressions_see_own_sprite {sprite : String} {s s' : Stage}
    (h : s.SameView sprite s') (cap : Nat) (pick pick' : Int → Int → Int) :
    (∀ p : Option Param, (∀ q ∈ p, q.avoids [.pickRandom] = true) →
      (s'.scene sprite pick').resolve cap p = (s.scene sprite pick).resolve cap p) ∧
    ∀ (kind : BlockKind) (params : Table Param),
      (Param.reporter kind params).avoids [.pickRandom] = true →
      (s'.scene sprite pick').evaluate cap kind params =
        (s.scene sprite pick).evaluate cap kind params := by
  have hreports := h.reports pick pick'
  exact ⟨fun p hp => hreports.resolve cap hp, fun kind params hp => hreports.evaluate cap hp⟩

namespace Stage

def solo : Stage :=
  { initial with
    sprites := [("cat", .create "cat" "Cat" "🐱")]
    «variables» := [("n", .number 2)]
    input := ⟨⟨10, 0⟩, ["a", "space"]⟩ }

/-- The stage of the lone cat with a second sprite and much else on it. An empty variable is no
different from one that was never bound. -/
def crowded : Stage where
  sprites := [("dog", .create "dog" "Dog" "🐶"), ("cat", .create "cat" "Cat" "🐱")]
  «variables» := [("n", .number 2), ("m", .empty)]
  monitors := [("n", true)]
  trail := [⟨.origin, ⟨1, 1⟩, "#ffc700", 3⟩]
  objects := [⟨"3d-1", .floor, "", ""⟩]
  prompts := [⟨1, "", "dog"⟩]
  generating := 1
  input := ⟨⟨10, 0⟩, ["space", "a", "space"]⟩
  lastObject := 1

theorem sameView_crowded : solo.SameView "cat" crowded where
  sprite := by decide +kernel
  valueOf name := by
    simp only [valueOf, Table.get?, solo, crowded, List.lookup_cons, List.lookup_nil]
    cases name == "n" <;> cases name == "m" <;> rfl
  mouse := rfl
  keys key := by
    simp only [solo, crowded, List.mem_cons, List.not_mem_nil]
    tauto

end Stage

/-- Whether the mouse touches the cat while the space bar is down, and the value of `n` next to
it. -/
def Param.cautious : Table Param :=
  [("STRING1", .reporter .both
      [("OPERAND1", .reporter .touching [("target", .literal (.text "_mouse_"))]),
       ("OPERAND2", .reporter .keyPressed [("key", .literal (.text "space"))])]),
   ("STRING2", .variable "n")]

theorem Stage.expressions_see_own_sprite_crowded :
    Stage.solo.SameView "cat" Stage.crowded ∧
      (Param.reporter .join Param.cautious).avoids [.pickRandom] = true ∧
      (Stage.crowded.scene "cat" fun _ high => high).evaluate 2 .join Param.cautious =
        (Stage.solo.scene "cat" fun low _ => low).evaluate 2 .join Param.cautious ∧
      (Stage.solo.scene "cat" fun low _ => low).evaluate 2 .join Param.cautious = .text "12" := by
  have havoid : (Param.reporter .join Param.cautious).avoids [.pickRandom] = true := by
    decide +kernel
  have hview := Stage.sameView_crowded
  refine ⟨hview, havoid, ?_, by decide +kernel⟩
  exact (Stage.expressions_see_own_sprite hview 2 _ _).2 .join Param.cautious havoid

end BlockScript

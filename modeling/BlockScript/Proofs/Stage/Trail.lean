import BlockScript.Proofs.Number.Exact
import BlockScript.Proofs.Stage.Touch

/-! The line of one pen on a stage that many sprites draw on. While a sprite's pen is down after
each of its own updates, what these draw is a path from where it stood to where it stands, with
whatever else happens to the stage in between. -/

namespace BlockScript

open Number

theorem beq_trans {x y z : Float} (h : (x == y) = true) (h' : (y == z) = true) :
    (x == z) = true := by
  rcases eq_or_zeros_of_beq h with rfl | ⟨⟨s, hx⟩, -⟩
  · exact h'
  · rcases eq_or_zeros_of_beq h' with rfl | ⟨-, s', hz⟩
    · exact h
    · change x.toModel.unpack.beq z.toModel.unpack = true
      rw [hx, hz]
      rfl

namespace Point

theorem same_trans {p q r : Point} (h : p.same q = true) (h' : q.same r = true) :
    p.same r = true := by
  rw [same, Bool.and_eq_true] at h h' ⊢
  exact ⟨beq_trans h.1 h'.1, beq_trans h.2 h'.2⟩

structure IsFinite (p : Point) : Prop where
  x : p.x.isFinite = true
  y : p.y.isFinite = true

theorem IsFinite.same_self {p : Point} (h : p.IsFinite) : p.same p = true := by
  rw [same, Bool.and_eq_true]
  exact ⟨beq_self_of_isFinite h.x, beq_self_of_isFinite h.y⟩

end Point

theorem Sprite.normalize_isFinite (s : Sprite) : s.normalize.position.IsFinite :=
  ⟨finiteOrZero_isFinite s.position.x, finiteOrZero_isFinite s.position.y⟩

namespace Stage

/-- The segments lead from one point to another. Each starts where the one before it ended, and
none stays where it is. -/
inductive Path : Point → List Segment → Point → Prop
  | nil {p q : Point} (h : p.same q = true) : Path p [] q
  | cons {p q : Point} {segment : Segment} {rest : List Segment}
    (hstart : p.same segment.start = true) (hmoves : segment.start.same segment.finish = false)
    (hrest : Path segment.finish rest q) : Path p (segment :: rest) q

namespace Path

theorem of_same {p q r : Point} {line : List Segment} (h : p.same q = true) (hl : Path q line r) :
    Path p line r := by
  cases hl with
  | nil h' => exact .nil (Point.same_trans h h')
  | cons hstart hmoves hrest => exact .cons (Point.same_trans h hstart) hmoves hrest

theorem append {p q r : Point} {line more : List Segment} (h : Path p line q)
    (h' : Path q more r) : Path p (line ++ more) r := by
  induction h with
  | nil hsame => exact h'.of_same hsame
  | cons hstart hmoves _ ih => exact .cons hstart hmoves (ih h')

end Path

theorem drawn_path {before after : Sprite} (hb : before.position.IsFinite)
    (ha : after.position.IsFinite) (hdown : after.pen.down = true) :
    Path before.position (drawn before after) after.position := by
  rw [drawn, hdown, Bool.true_and]
  cases hsame : before.position.same after.position with
  | true => exact .nil hsame
  | false => exact .cons hb.same_self hsame (.nil ha.same_self)

/-- What happens to a stage between two times that it is wiped or put back to its start. -/
inductive Operation where
  | update (id : String) (change : Sprite → Sprite)
  | add (sprite : Sprite)
  | drop (id : String)
  | hush
  | setVariable (name : String) (value : Value)
  | changeVariable (name : String) (amount : Float)
  | toggleMonitor (name : String)
  | setMonitor (name : String) (shown : Bool)
  | addObject (kind : ObjectKind) (prompt texture : String)
  | prompts (pending : List Prompt)
  | generating (count : Nat)
  | input (i : Input)

namespace Operation

def apply (s : Stage) : Operation → Stage
  | .update id change => s.updateSprite id change
  | .add sprite => s.addSprite sprite
  | .drop id => { s with sprites := s.sprites.erase id }
  | .hush => s.clearSpeech
  | .setVariable name value => s.setVariable name value
  | .changeVariable name amount => s.changeVariable name amount
  | .toggleMonitor name => (s.toggleMonitor name).1
  | .setMonitor name shown => { s with monitors := s.monitors.insert name shown }
  | .addObject kind prompt texture => (s.addObject kind prompt texture).1
  | .prompts pending => { s with prompts := pending }
  | .generating count => { s with generating := count }
  | .input i => { s with input := i }

/-- Whether it is an update of the sprite `id`. -/
def updates (id : String) : Operation → Bool
  | .update other _ => other == id
  | _ => false

/-- Whether the sprite `id` is neither dropped nor put in the place of. -/
def spares (id : String) : Operation → Bool
  | .add sprite => sprite.id != id
  | .drop other => other != id
  | _ => true

/-- What it adds to the trail. -/
def ink (s : Stage) (o : Operation) : List Segment :=
  (o.apply s).trail.drop s.trail.length

end Operation

/-- What the updates of the sprite `id` add to the trail. -/
def penLine (id : String) (s : Stage) : List Operation → List Segment
  | [] => []
  | o :: rest => (if o.updates id then o.ink s else []) ++ penLine id (o.apply s) rest

/-- Whether the pen of the sprite `id` is down after each of its updates. -/
def PenStaysDown (id : String) (s : Stage) : List Operation → Prop
  | [] => True
  | o :: rest =>
    (o.updates id = true → ∀ a ∈ (o.apply s).sprite? id, a.pen.down = true) ∧
      PenStaysDown id (o.apply s) rest

namespace Operation

theorem apply_trail (s : Stage) (o : Operation) : (o.apply s).trail = s.trail ++ o.ink s := by
  have hprefix : s.trail <+: (o.apply s).trail := by
    cases o with
    | update id change =>
      simp only [apply, updateSprite]
      split
      · exact List.prefix_rfl
      · exact List.prefix_append ..
    | _ => exact List.prefix_rfl
  obtain ⟨more, hmore⟩ := hprefix
  rw [ink, ← hmore, List.drop_left]

theorem ink_update {s : Stage} {id : String} {before : Sprite} (h : s.sprite? id = some before)
    (f : Sprite → Sprite) : (Operation.update id f).ink s = drawn before (f before).normalize := by
  simp only [ink, apply, updateSprite, h, List.drop_left]

/-- A sprite stands where it stood if it is not updated. -/
theorem apply_position {s : Stage} {o : Operation} {id : String} {before : Sprite}
    (hs : s.sprite? id = some before) (hspare : o.spares id = true) (ho : o.updates id = false) :
    ∃ after, (o.apply s).sprite? id = some after ∧ after.position = before.position := by
  cases o with
  | update other f =>
    have hne : id ≠ other := Ne.symm (by simpa only [updates, beq_eq_false_iff_ne] using ho)
    exact ⟨before, by rw [apply, updateSprite_sprite?, if_neg hne, hs], rfl⟩
  | add sprite =>
    have hne : id ≠ sprite.id := Ne.symm (bne_iff_ne.mp hspare)
    refine ⟨before, ?_, rfl⟩
    rw [sprite?, apply, Stage.addSprite, Table.get?_insert, if_neg hne]
    exact hs
  | drop other =>
    have hne : id ≠ other := Ne.symm (bne_iff_ne.mp hspare)
    refine ⟨before, ?_, rfl⟩
    rw [sprite?, apply, Table.get?_erase, if_neg hne]
    exact hs
  | hush =>
    refine ⟨before.hush, ?_, rfl⟩
    rw [sprite?, apply, clearSpeech, Table.get?_mapValues]
    exact congrArg (Option.map Sprite.hush) hs
  | _ => exact ⟨before, hs, rfl⟩

theorem apply_path {s : Stage} {o : Operation} {id : String} {before : Sprite}
    (hs : s.sprite? id = some before) (hfinite : before.position.IsFinite)
    (hspare : o.spares id = true)
    (hdown : o.updates id = true → ∀ a ∈ (o.apply s).sprite? id, a.pen.down = true) :
    ∃ after, (o.apply s).sprite? id = some after ∧ after.position.IsFinite ∧
      Path before.position (if o.updates id then o.ink s else []) after.position := by
  cases ho : o.updates id with
  | false =>
    obtain ⟨after, hafter, hpos⟩ := apply_position hs hspare ho
    rw [← hpos] at hfinite ⊢
    exact ⟨after, hafter, hfinite, .nil hfinite.same_self⟩
  | true =>
    cases o with
    | update other f =>
      cases beq_iff_eq.mp ho
      have hafter : ((update id f).apply s).sprite? id = some (f before).normalize := by
        rw [apply, updateSprite_sprite?, if_pos rfl, hs, Option.map_some]
      refine ⟨_, hafter, (f before).normalize_isFinite, ?_⟩
      rw [if_pos rfl, ink_update hs]
      exact drawn_path hfinite (f before).normalize_isFinite (hdown ho _ hafter)
    | _ => cases ho

end Operation

theorem penLine_sublist (id : String) (s : Stage) (ops : List Operation) :
    ∃ drawn, (ops.foldl Operation.apply s).trail = s.trail ++ drawn ∧
      (penLine id s ops).Sublist drawn := by
  induction ops generalizing s with
  | nil => exact ⟨[], (List.append_nil _).symm, List.Sublist.refl []⟩
  | cons o ops ih =>
    obtain ⟨drawn, htrail, hsub⟩ := ih (o.apply s)
    refine ⟨o.ink s ++ drawn, ?_, ?_⟩
    · rw [List.foldl_cons, htrail, Operation.apply_trail, List.append_assoc]
    · refine List.Sublist.append ?_ hsub
      split
      · exact List.Sublist.refl _
      · exact List.nil_sublist _

/-- While the pen of a sprite stays down, its updates draw a path from where it was to where it
is, which is empty only if these are the same point. -/
theorem penLine_connects {s : Stage} {ops : List Operation} {id : String} {before : Sprite}
    (hs : s.sprite? id = some before) (hfinite : before.position.IsFinite)
    (hspare : ∀ o ∈ ops, o.spares id = true) (hdown : PenStaysDown id s ops) :
    ∃ after, (ops.foldl Operation.apply s).sprite? id = some after ∧
      Path before.position (penLine id s ops) after.position ∧
      ∃ drawn, (ops.foldl Operation.apply s).trail = s.trail ++ drawn ∧
        (penLine id s ops).Sublist drawn := by
  have hpath : ∃ after, (ops.foldl Operation.apply s).sprite? id = some after ∧
      Path before.position (penLine id s ops) after.position := by
    induction ops generalizing s before with
    | nil => exact ⟨before, hs, .nil hfinite.same_self⟩
    | cons o ops ih =>
      obtain ⟨ho, hops⟩ := List.forall_mem_cons.mp hspare
      obtain ⟨next, hnext, hnextFinite, hfirst⟩ := Operation.apply_path hs hfinite ho hdown.1
      obtain ⟨after, hafter, hrest⟩ := ih hnext hnextFinite hops hdown.2
      exact ⟨after, hafter, hfirst.append hrest⟩
  obtain ⟨after, hafter, hline⟩ := hpath
  exact ⟨after, hafter, hline, penLine_sublist id s ops⟩

def twoPens : Stage :=
  (initial.addSprite (.create "cat" "Cat" defaultCostume)).addSprite
    (.create "dog" "Dog" defaultCostume)

/-- Both sprites draw. The last step of the cat is out of range in one coordinate. -/
def sketch : List Operation :=
  [.update "cat" fun a => { a with pen := { a.pen with down := true } },
   .update "cat" fun a => { a with position := ⟨10, 0⟩ },
   .update "dog" fun a => { a with position := ⟨0, 5⟩, pen := { a.pen with down := true } },
   .hush,
   .update "cat" fun a => { a with position := ⟨0 / 0, 20⟩ }]

theorem penLine_connects_sketch :
    (penLine "cat" twoPens sketch).map (fun g => (g.start, g.finish)) =
      [(⟨0, 0⟩, ⟨10, 0⟩), (⟨10, 0⟩, ⟨0, 20⟩)] ∧
    ∃ after, (sketch.foldl Operation.apply twoPens).sprite? "cat" = some after ∧
      Path .origin (penLine "cat" twoPens sketch) after.position ∧
      ∃ drawn, (sketch.foldl Operation.apply twoPens).trail = twoPens.trail ++ drawn ∧
        (penLine "cat" twoPens sketch).Sublist drawn := by
  have hcat : twoPens.sprite? "cat" = some (.create "cat" "Cat" defaultCostume) := by
    decide +kernel
  refine ⟨by decide +kernel, ?_⟩
  refine penLine_connects hcat ⟨by decide, by decide⟩ (by decide +kernel) ?_
  simp only [sketch, PenStaysDown, and_true]
  refine ⟨?_, ?_, ?_, ?_, ?_⟩ <;> decide +kernel

end Stage

end BlockScript

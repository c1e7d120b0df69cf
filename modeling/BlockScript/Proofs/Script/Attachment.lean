import BlockScript.Proofs.Number.Defined
import BlockScript.Snap

/-! The choice of an attachment. Of all that the blocks may offer, a dropped block takes the nearest
one below the threshold, and of several equally near ones the one that comes first: that of the
earlier block, and of one block the bottom before the mouth. -/

namespace BlockScript.Snap

open Layout (bottomPoint insidePoint)

/-- What `b` may offer: its bottom unless it is a reporter, and its mouth if nothing is in it.
Blocks called `excluded` offer nothing and are in no mouth. -/
inductive Legal (blocks : List Block) (excluded : List String) (b : Block) : Snap → Prop
  | bottom (hout : b.id ∉ excluded) (hb : b.shape ≠ .reporter) :
    Legal blocks excluded b ⟨b.id, .bottom, bottomPoint blocks b⟩
  | inside (hout : b.id ∉ excluded) (hb : b.shape = .wrap)
    (hfree : ∀ c ∈ blocks, c.id ∉ excluded →
      c.position.near (insidePoint b) occupancyTolerance = false) :
    Legal blocks excluded b ⟨b.id, .inside, insidePoint b⟩

/-- The attachment `t` is the first of the nearest to `p`. No other one is nearer, and none before
it is as near: neither one of an earlier block nor, if `t` is a mouth, the bottom of the same
block. -/
structure Best (blocks : List Block) (excluded : List String) (p : Point) (t : Snap) : Prop where
  close : p.distance t.position < threshold
  least : ∀ c ∈ blocks, ∀ u, Legal blocks excluded c u →
    ¬ p.distance u.position < p.distance t.position
  first : ∃ before b after, blocks = before ++ b :: after ∧ Legal blocks excluded b t ∧
    (∀ c ∈ before, ∀ u, Legal blocks excluded c u →
      ¬ p.distance u.position ≤ p.distance t.position) ∧
    (t.attachment = .inside → ∀ u, Legal blocks excluded b u → u.attachment = .bottom →
      ¬ p.distance u.position ≤ p.distance t.position)

theorem Legal.id_not_mem {blocks : List Block} {excluded : List String} {b : Block} {t : Snap}
    (h : Legal blocks excluded b t) : b.id ∉ excluded := by
  cases h with
  | bottom hout | inside hout => exact hout

theorem isOccupied_eq_false_iff {blocks : List Block} {excluded : List String} {p : Point} :
    isOccupied blocks excluded p = false ↔
      ∀ c ∈ blocks, c.id ∉ excluded → c.position.near p occupancyTolerance = false := by
  simp [isOccupied]

theorem mem_offers_iff {blocks : List Block} {excluded : List String} {b : Block} {t : Snap}
    (hout : b.id ∉ excluded) :
    t ∈ offers blocks excluded b ↔ Legal blocks excluded b t := by
  constructor
  · intro h
    rcases List.mem_append.mp h with h | h
    · split at h
      · cases h
      · rename_i hb
        cases List.mem_singleton.mp h
        exact .bottom hout hb
    · split at h
      · rename_i hb
        cases List.mem_singleton.mp h
        simp only [Bool.and_eq_true, decide_eq_true_eq, Bool.not_eq_true'] at hb
        exact .inside hout hb.1 (isOccupied_eq_false_iff.mp hb.2)
      · cases h
  · rintro (⟨-, hb⟩ | ⟨-, hb, hfree⟩)
    · simp [offers, hb]
    · simp [offers, hb, isOccupied_eq_false_iff.mpr hfree]

theorem offers_pairwise (blocks : List Block) (excluded : List String) (b : Block) :
    (offers blocks excluded b).Pairwise fun t u =>
      t.attachment = .bottom ∧ u.attachment = .inside := by
  unfold offers
  split <;> split <;> simp

theorem mem_attachments_iff {blocks : List Block} {excluded : List String} {t : Snap} :
    t ∈ attachments blocks excluded ↔ ∃ b ∈ blocks, Legal blocks excluded b t := by
  simp only [attachments, List.mem_flatMap, List.mem_filter, Bool.not_eq_true',
    List.contains_eq_mem, decide_eq_false_iff_not]
  constructor
  · rintro ⟨b, ⟨hb, hout⟩, ht⟩
    exact ⟨b, hb, (mem_offers_iff hout).mp ht⟩
  · rintro ⟨b, hb, ht⟩
    exact ⟨b, ⟨hb, ht.id_not_mem⟩, (mem_offers_iff ht.id_not_mem).mpr ht⟩

/-- The choice among `l` so far: nothing if nothing is close enough, or the first of the nearest. -/
def Chosen (p : Point) (l : List Snap) : Option (Snap × Float) → Prop
  | none => ∀ u ∈ l, ¬ p.distance u.position < threshold
  | some (t, d) => d = p.distance t.position ∧ d < threshold ∧
      ∃ l₁ l₂, l = l₁ ++ t :: l₂ ∧ (∀ u ∈ l₁, ¬ p.distance u.position ≤ d) ∧
        ∀ u ∈ l₂, ¬ p.distance u.position < d

theorem Chosen.closer {p : Point} {l : List Snap} {best : Option (Snap × Float)}
    (h : Chosen p l best) (u : Snap) : Chosen p (l ++ [u]) (closer p best u) := by
  cases best with
  | none =>
    by_cases hu : p.distance u.position < threshold
    · have htake : Snap.closer p none u = some (u, p.distance u.position) := if_pos hu
      rw [htake]
      refine ⟨rfl, hu, l, [], rfl, fun v hv hle => ?_, by simp⟩
      exact h v hv (Number.lt_of_le_of_lt hle hu)
    · have hkeep : Snap.closer p none u = none := if_neg hu
      rw [hkeep]
      intro v hv
      rcases List.mem_append.mp hv with hv | hv
      · exact h v hv
      · exact List.mem_singleton.mp hv ▸ hu
  | some best =>
    obtain ⟨t, d⟩ := best
    obtain ⟨hd, hclose, l₁, l₂, rfl, hbefore, hafter⟩ := h
    by_cases hu : p.distance u.position < d
    · have htake : Snap.closer p (some (t, d)) u = some (u, p.distance u.position) := if_pos hu
      rw [htake]
      refine ⟨rfl, Number.lt_of_le_of_lt (Number.le_of_lt hu) hclose, l₁ ++ t :: l₂, [], rfl,
        fun v hv hle => ?_, by simp⟩
      -- Nothing so far is as near as `u`, which is nearer than the nearest.
      have hlt := Number.lt_of_le_of_lt hle hu
      rcases List.mem_append.mp hv with hv | hv
      · exact hbefore v hv (Number.le_of_lt hlt)
      · rcases List.mem_cons.mp hv with rfl | hv
        · exact Number.not_lt_of_le (Number.le_of_lt hlt) (hd ▸ hlt)
        · exact hafter v hv hlt
    · have hkeep : Snap.closer p (some (t, d)) u = some (t, d) := if_neg hu
      rw [hkeep]
      refine ⟨hd, hclose, l₁, l₂ ++ [u], by simp, hbefore, fun v hv => ?_⟩
      rcases List.mem_append.mp hv with hv | hv
      · exact hafter v hv
      · exact List.mem_singleton.mp hv ▸ hu

theorem foldl_closer_chosen (p : Point) (l : List Snap) : Chosen p l (l.foldl (closer p) none) := by
  induction l using List.reverseRecOn with
  | nil => exact fun u hu => absurd hu List.not_mem_nil
  | append_singleton l u ih =>
    rw [List.foldl_append]
    exact ih.closer u

theorem split_attachments {l : List Block} {q : Block → Bool} {f : Block → List Snap} {t : Snap}
    {l₁ l₂ : List Snap} (h : (l.filter q).flatMap f = l₁ ++ t :: l₂) :
    ∃ before b after m₁ m₂, l = before ++ b :: after ∧ q b = true ∧ f b = m₁ ++ t :: m₂ ∧
      l₁ = (before.filter q).flatMap f ++ m₁ := by
  induction l generalizing l₁ with
  | nil => cases l₁ <;> cases h
  | cons a l ih =>
    by_cases ha : q a = true
    · rw [List.filter_cons_of_pos ha, List.flatMap_cons] at h
      -- The attachment is one of `a`, or one of a later block after those of `a`.
      have hlater : ∀ {k}, (l.filter q).flatMap f = k ++ t :: l₂ → l₁ = f a ++ k →
          ∃ before b after m₁ m₂, a :: l = before ++ b :: after ∧ q b = true ∧
            f b = m₁ ++ t :: m₂ ∧ l₁ = (before.filter q).flatMap f ++ m₁ := by
        rintro k hk rfl
        obtain ⟨before, b, after, m₁, m₂, rfl, hb, hf, rfl⟩ := ih hk
        refine ⟨a :: before, b, after, m₁, m₂, rfl, hb, hf, ?_⟩
        rw [List.filter_cons_of_pos ha, List.flatMap_cons, List.append_assoc]
      rcases List.append_eq_append_iff.mp h with ⟨k, hk, hrest⟩ | ⟨k, hk, hrest⟩
      · exact hlater hrest hk
      · cases k with
        | nil => exact hlater (k := []) hrest.symm (by rw [hk, List.append_nil, List.append_nil])
        | cons u k =>
          obtain ⟨rfl, -⟩ := List.cons.inj hrest
          exact ⟨[], a, l, l₁, k, rfl, ha, hk, rfl⟩
    · rw [List.filter_cons_of_neg ha] at h
      obtain ⟨before, b, after, m₁, m₂, rfl, hb, hf, rfl⟩ := ih h
      refine ⟨a :: before, b, after, m₁, m₂, rfl, hb, hf, ?_⟩
      rw [List.filter_cons_of_neg ha]

theorem Chosen.best {blocks : List Block} {excluded : List String} {p : Point} {t : Snap}
    {d : Float} (h : Chosen p (attachments blocks excluded) (some (t, d))) :
    Best blocks excluded p t := by
  obtain ⟨rfl, hclose, l₁, l₂, hl, hbefore, hafter⟩ := h
  obtain ⟨before, b, after, m₁, m₂, hblocks, hb, hoffers, hl₁⟩ := split_attachments hl
  have hout : b.id ∉ excluded := by simpa using hb
  have ht : Legal blocks excluded b t := (mem_offers_iff hout).mp (by simp [hoffers])
  refine ⟨hclose, fun c hc u hu hlt => ?_, before, b, after, hblocks, ht, fun c hc u hu => ?_,
    fun hinside u hu hbottom => ?_⟩
  · have hmem : u ∈ attachments blocks excluded := mem_attachments_iff.mpr ⟨c, hc, hu⟩
    rw [hl, List.mem_append, List.mem_cons] at hmem
    rcases hmem with hmem | rfl | hmem
    · exact hbefore u hmem (Number.le_of_lt hlt)
    · exact Number.not_lt_of_le (Number.le_of_lt hlt) hlt
    · exact hafter u hmem hlt
  · refine hbefore u ?_
    rw [hl₁, List.mem_append, List.mem_flatMap]
    refine .inl ⟨c, List.mem_filter.mpr ⟨hc, by simpa using hu.id_not_mem⟩, ?_⟩
    exact (mem_offers_iff hu.id_not_mem).mpr hu
  · have hmem : u ∈ offers blocks excluded b := (mem_offers_iff hout).mpr hu
    have hpair := offers_pairwise blocks excluded b
    rw [hoffers, List.pairwise_append, List.pairwise_cons] at hpair
    rw [hoffers, List.mem_append, List.mem_cons] at hmem
    rcases hmem with hmem | rfl | hmem
    · exact hbefore u (hl₁ ▸ List.mem_append_right _ hmem)
    · cases hinside.symm.trans hbottom
    · cases hinside.symm.trans (hpair.2.1.1 u hmem).1

theorem same_or_before {α : Type*} {l₁ l₂ m₁ m₂ : List α} {a b : α}
    (h : l₁ ++ a :: l₂ = m₁ ++ b :: m₂) : a = b ∨ a ∈ m₁ ∨ b ∈ l₁ := by
  rcases List.append_eq_append_iff.mp h with ⟨k, rfl, hk⟩ | ⟨k, rfl, hk⟩
  · cases k with
    | nil => exact .inl (List.cons.inj hk).1
    | cons c k =>
      obtain ⟨rfl, -⟩ := List.cons.inj hk
      exact .inr (.inl (by simp))
  · cases k with
    | nil => exact .inl (List.cons.inj hk).1.symm
    | cons c k =>
      obtain ⟨rfl, -⟩ := List.cons.inj hk
      exact .inr (.inr (by simp))

theorem Best.le {blocks : List Block} {excluded : List String} {p : Point} {t u : Snap}
    (ht : Best blocks excluded p t) (hu : Best blocks excluded p u) :
    p.distance t.position ≤ p.distance u.position := by
  obtain ⟨before, b, after, hblocks, hlegal, -⟩ := hu.first
  have hleast := ht.least b (by simp [hblocks]) u hlegal
  have htnan := (Number.isNaN_of_le (Number.le_of_lt ht.close)).1
  have hunan := (Number.isNaN_of_le (Number.le_of_lt hu.close)).1
  exact (Number.lt_or_le hunan htnan).resolve_left hleast

theorem Best.unique {blocks : List Block} {excluded : List String} {p : Point} {t u : Snap}
    (ht : Best blocks excluded p t) (hu : Best blocks excluded p u) : t = u := by
  have hle := ht.le hu
  have hge := hu.le ht
  obtain ⟨before, b, after, hblocks, hlegal, hbefore, hbottom⟩ := ht.first
  obtain ⟨before', b', after', hblocks', hlegal', hbefore', hbottom'⟩ := hu.first
  rcases same_or_before (hblocks.symm.trans hblocks') with rfl | hmem | hmem
  · cases hlegal with
    | bottom =>
      cases hlegal' with
      | bottom => rfl
      | inside => exact absurd hle (hbottom' rfl _ (.bottom ‹_› ‹_›) rfl)
    | inside =>
      cases hlegal' with
      | bottom => exact absurd hge (hbottom rfl _ (.bottom ‹_› ‹_›) rfl)
      | inside => rfl
  · exact absurd hle (hbefore' b hmem t hlegal)
  · exact absurd hge (hbefore b' hmem u hlegal')

theorem foldl_closer_best (blocks : List Block) (excluded : List String) (p : Point) :
    (((attachments blocks excluded).foldl (closer p) none).map Prod.fst = none ↔
      ∀ b ∈ blocks, ∀ t, Legal blocks excluded b t → ¬ p.distance t.position < threshold) ∧
    ∀ t, ((attachments blocks excluded).foldl (closer p) none).map Prod.fst = some t ↔
      Best blocks excluded p t := by
  have hchosen := foldl_closer_chosen p (attachments blocks excluded)
  cases hfold : (attachments blocks excluded).foldl (closer p) none with
  | none =>
    rw [hfold] at hchosen
    have hfar : ∀ b ∈ blocks, ∀ t, Legal blocks excluded b t →
        ¬ p.distance t.position < threshold :=
      fun b hb t ht => hchosen t (mem_attachments_iff.mpr ⟨b, hb, ht⟩)
    refine ⟨⟨fun _ => hfar, fun _ => rfl⟩, fun t => ⟨nofun, fun ht => ?_⟩⟩
    obtain ⟨before, b, after, hblocks, hlegal, -⟩ := ht.first
    exact absurd ht.close (hfar b (by simp [hblocks]) t hlegal)
  | some best =>
    rw [hfold] at hchosen
    -- What the scan has chosen is the best there is, and there is no other best one.
    have hbest : Best blocks excluded p best.1 := hchosen.best
    obtain ⟨before, b, after, hblocks, hlegal, -⟩ := hbest.first
    refine ⟨⟨nofun, fun hfar => ?_⟩, fun t => ⟨fun ht => ?_, fun ht => ?_⟩⟩
    · exact absurd hbest.close (hfar b (by simp [hblocks]) best.1 hlegal)
    · cases ht
      exact hbest
    · rw [Option.map_some, hbest.unique ht]

/-- A dropped block attaches to nothing exactly if it is a hat or a reporter or nothing that the
blocks may offer is close enough. Otherwise it takes the first of the nearest attachments. -/
theorem find_eq_best (blocks : List Block) (shape : Shape) (p : Point) (excluded : List String) :
    (find? blocks shape p excluded = none ↔ shape = .hat ∨ shape = .reporter ∨
      ∀ b ∈ blocks, ∀ t, Legal blocks excluded b t → ¬ p.distance t.position < threshold) ∧
    ∀ t, find? blocks shape p excluded = some t ↔
      shape ≠ .hat ∧ shape ≠ .reporter ∧ Best blocks excluded p t := by
  obtain ⟨hnone, hsome⟩ := foldl_closer_best blocks excluded p
  cases shape with
  | hat | reporter => simp [find?]
  | stack | wrap => simp [find?, hnone, hsome]

/-- A loop, and a block whose bottom is just where the mouth of the loop is. -/
def sharedPoint : List Block :=
  [.create "loop" .forever ⟨0, 0⟩, .create "step" .moveSteps ⟨20, -4⟩]

/-- The bottom of the loop, its mouth and the bottom of the other block are equally near. -/
theorem find_eq_best_shared_point :
    ∃ t, find? sharedPoint .stack ⟨10, 56⟩ [] = some t ∧
      (t.target, t.attachment, t.position) = ("loop", .bottom, ⟨0, 76⟩) ∧
      (Point.mk 10 56).distance ⟨0, 76⟩ = (Point.mk 10 56).distance ⟨20, 36⟩ ∧
      Best sharedPoint [] ⟨10, 56⟩ t := by
  have hfields : (find? sharedPoint .stack ⟨10, 56⟩ []).map
      (fun t => (t.target, t.attachment, t.position)) = some ("loop", .bottom, ⟨0, 76⟩) := by
    decide +kernel
  obtain ⟨t, ht, hloop⟩ := Option.map_eq_some_iff.mp hfields
  obtain ⟨-, -, hbest⟩ := ((find_eq_best sharedPoint .stack ⟨10, 56⟩ []).2 t).mp ht
  exact ⟨t, ht, hloop, by decide +kernel, hbest⟩

end BlockScript.Snap

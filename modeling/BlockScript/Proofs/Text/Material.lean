import BlockScript.Texture
import Mathlib

/-! The material that a prompt names. It is what follows the first `with` or `of` that a blank comes
after, up to the end of the line, and the whole prompt if that is nothing. -/

namespace BlockScript.Material

/-- At the head of `cs` stand one of `words`, in letters of either case, and a blank, and `rest`
comes after them. -/
def Opens (words : List String) (cs rest : List Char) : Prop :=
  ∃ word ∈ words, ∃ spelled blank, cs = spelled ++ blank :: rest ∧
    spelled.map Char.toLower = word.toList.map Char.toLower ∧ Text.isBlank blank = true

/-- What comes after the leftmost of `words` in `cs` that a blank comes after. -/
def Follows (words : List String) (cs rest : List Char) : Prop :=
  ∃ i, Opens words (cs.drop i) rest ∧ ∀ j < i, ∀ other, ¬ Opens words (cs.drop j) other

/-- The words that are looked for. A third one, `made of`, ends in one of them. -/
def openers : List String := ["with", "of"]

def line (cs : List Char) : List Char :=
  cs.takeWhile (· != '\n')

/-- The rest of the line after the first of `words`. -/
def findAmong (words : List String) : List Char → Option (List Char)
  | [] => none
  | c :: cs => (words.findSome? (afterWord · (c :: cs))).or (findAmong words cs)

/-- The material in a prompt. -/
inductive Named (prompt : List Char) : List Char → Prop
  | introduced {rest : List Char} (h : Follows openers prompt rest) (hne : line rest ≠ []) :
    Named prompt (line rest)
  | whole (h : ∀ rest, Follows openers prompt rest → line rest = []) : Named prompt prompt

theorem find?_eq_findAmong (cs : List Char) : find? cs = findAmong keywords cs := by
  induction cs with
  | nil => rfl
  | cons c cs ih =>
    rw [find?, findAmong, ← ih]
    cases keywords.findSome? (afterWord · (c :: cs)) <;> rfl

theorem dropWord_eq_some_iff {word cs rest : List Char} :
    dropWord word cs = some rest ↔
      ∃ spelled, cs = spelled ++ rest ∧ spelled.map Char.toLower = word.map Char.toLower := by
  induction word generalizing cs with
  | nil => simp [dropWord, eq_comm]
  | cons w word ih =>
    cases cs with
    | nil => simp [dropWord]
    | cons c cs =>
      rw [dropWord]
      by_cases hc : w.toLower = c.toLower
      · rw [if_pos hc, ih]
        constructor
        · rintro ⟨spelled, rfl, hs⟩
          exact ⟨c :: spelled, rfl, by rw [List.map_cons, List.map_cons, hs, hc]⟩
        · rintro ⟨spelled, hcs, hs⟩
          obtain ⟨d, spelled, rfl⟩ := List.exists_cons_of_ne_nil (l := spelled) (by
            rintro rfl
            cases hs)
          obtain ⟨rfl, rfl⟩ := List.cons.inj hcs
          exact ⟨spelled, rfl, (List.cons.inj hs).2⟩
      · rw [if_neg hc]
        refine iff_of_false nofun ?_
        rintro ⟨spelled, hcs, hs⟩
        obtain ⟨d, spelled, rfl⟩ := List.exists_cons_of_ne_nil (l := spelled) (by
          rintro rfl
          cases hs)
        obtain ⟨rfl, -⟩ := List.cons.inj hcs
        exact hc (List.cons.inj hs).1.symm

theorem afterWord_eq_some_iff {word : String} {cs found : List Char} :
    afterWord word cs = some found ↔ ∃ rest, Opens [word] cs rest ∧ found = line rest := by
  simp only [Opens, List.mem_singleton, exists_eq_left]
  constructor
  · intro h
    unfold afterWord at h
    split at h
    · rename_i blank rest hd
      obtain ⟨spelled, hcs, hs⟩ := dropWord_eq_some_iff.mp hd
      split at h
      · rename_i hb
        cases h
        exact ⟨rest, ⟨spelled, blank, hcs, hs, hb⟩, rfl⟩
      · cases h
    · cases h
  · rintro ⟨rest, ⟨spelled, blank, hcs, hs, hb⟩, rfl⟩
    have hd := dropWord_eq_some_iff.mpr ⟨spelled, hcs, hs⟩
    simp only [afterWord, hd, if_pos hb]
    rfl

theorem opens_openers_iff {cs rest : List Char} :
    Opens openers cs rest ↔ Opens ["with"] cs rest ∨ Opens ["of"] cs rest := by
  simp only [Opens, openers, List.mem_cons, List.not_mem_nil, or_false, or_and_right, exists_or,
    exists_eq_left]

theorem Opens.head {word : String} {cs rest : List Char} (h : Opens [word] cs rest)
    (hw : word.toList ≠ []) :
    cs.head?.map Char.toLower = word.toList.head?.map Char.toLower := by
  obtain ⟨_, hword, spelled, blank, rfl, hs, -⟩ := h
  cases List.mem_singleton.mp hword
  cases spelled with
  | nil => exact absurd (List.map_eq_nil_iff.mp hs.symm) hw
  | cons c spelled =>
    rw [← List.head?_map, ← List.head?_map, ← hs]
    rfl

theorem Opens.eq_of_word {word : String} {cs rest other : List Char} (h : Opens [word] cs rest)
    (h' : Opens [word] cs other) : rest = other := by
  obtain ⟨_, hword, spelled, blank, rfl, hs, -⟩ := h
  obtain ⟨_, hword', spelled', blank', hcs, hs', -⟩ := h'
  cases List.mem_singleton.mp hword
  cases List.mem_singleton.mp hword'
  have hlen : spelled.length = spelled'.length := by
    simpa only [List.length_map] using congrArg List.length (hs.trans hs'.symm)
  exact (List.cons.inj (List.append_inj hcs hlen).2).2

/-- The two words differ in their first letters, so only one of them stands at a place. -/
theorem Opens.rest_eq {cs rest other : List Char} (h : Opens openers cs rest)
    (h' : Opens openers cs other) : rest = other := by
  rcases opens_openers_iff.mp h with h | h <;> rcases opens_openers_iff.mp h' with h' | h'
  · exact h.eq_of_word h'
  · exact absurd ((h.head (by decide)).symm.trans (h'.head (by decide))) (by decide)
  · exact absurd ((h.head (by decide)).symm.trans (h'.head (by decide))) (by decide)
  · exact h.eq_of_word h'

theorem not_opens_of_first {c : Char} {cs rest : List Char} (hw : c.toLower ≠ 'w')
    (ho : c.toLower ≠ 'o') : ¬ Opens openers (c :: cs) rest := by
  rw [opens_openers_iff, not_or]
  exact ⟨fun h => hw (Option.some.inj (h.head (by decide))),
    fun h => ho (Option.some.inj (h.head (by decide)))⟩

theorem not_opens_nil {rest : List Char} : ¬ Opens openers [] rest := by
  rintro ⟨_, _, spelled, _, hcs, -⟩
  exact absurd hcs.symm (by simp)

theorem Follows.rest_eq {cs rest other : List Char} (h : Follows openers cs rest)
    (h' : Follows openers cs other) : rest = other := by
  obtain ⟨i, hi, hmin⟩ := h
  obtain ⟨j, hj, hmin'⟩ := h'
  rcases Nat.lt_trichotomy i j with hlt | rfl | hlt
  · exact absurd hi (hmin' i hlt rest)
  · exact hi.rest_eq hj
  · exact absurd hj (hmin j hlt other)

theorem follows_cons_iff {words : List String} {c : Char} {cs rest : List Char} :
    Follows words (c :: cs) rest ↔
      Opens words (c :: cs) rest ∨
        (∀ other, ¬ Opens words (c :: cs) other) ∧ Follows words cs rest := by
  constructor
  · rintro ⟨i, hi, hmin⟩
    cases i with
    | zero => exact .inl hi
    | succ i =>
      exact .inr ⟨hmin 0 i.succ_pos, i, hi, fun j hj => hmin (j + 1) (Nat.succ_lt_succ hj)⟩
  · rintro (h | ⟨hnone, i, hi, hmin⟩)
    · exact ⟨0, h, nofun⟩
    · refine ⟨i + 1, hi, fun j hj => ?_⟩
      cases j with
      | zero => exact hnone
      | succ j => exact hmin j (Nat.lt_of_succ_lt_succ hj)

theorem findSome?_openers_eq_some_iff {cs found : List Char} :
    openers.findSome? (afterWord · cs) = some found ↔
      ∃ rest, Opens openers cs rest ∧ found = line rest := by
  have hsound : ∀ {found}, openers.findSome? (afterWord · cs) = some found →
      ∃ rest, Opens openers cs rest ∧ found = line rest := by
    intro found h
    obtain ⟨word, hword, hfound⟩ := List.exists_of_findSome?_eq_some h
    obtain ⟨rest, ⟨_, hmem, hat⟩, rfl⟩ := afterWord_eq_some_iff.mp hfound
    cases List.mem_singleton.mp hmem
    exact ⟨rest, ⟨word, hword, hat⟩, rfl⟩
  refine ⟨hsound, ?_⟩
  rintro ⟨rest, hrest, rfl⟩
  cases hfind : openers.findSome? (afterWord · cs) with
  | some found =>
    obtain ⟨other, hother, rfl⟩ := hsound hfind
    rw [hother.rest_eq hrest]
  | none =>
    obtain ⟨word, hword, hat⟩ := hrest
    have hsome : afterWord word cs = some (line rest) :=
      afterWord_eq_some_iff.mpr ⟨rest, ⟨word, List.mem_singleton_self word, hat⟩, rfl⟩
    rw [List.findSome?_eq_none_iff.mp hfind word hword] at hsome
    cases hsome

theorem findSome?_openers_eq_none_iff {cs : List Char} :
    openers.findSome? (afterWord · cs) = none ↔ ∀ rest, ¬ Opens openers cs rest := by
  rw [Option.eq_none_iff_forall_ne_some]
  simp only [ne_eq, findSome?_openers_eq_some_iff]
  exact ⟨fun h rest hrest => h (line rest) ⟨rest, hrest, rfl⟩,
    fun h _ ⟨rest, hrest, _⟩ => h rest hrest⟩

theorem findAmong_openers_eq_some_iff {cs found : List Char} :
    findAmong openers cs = some found ↔ ∃ rest, Follows openers cs rest ∧ found = line rest := by
  induction cs with
  | nil =>
    refine iff_of_false nofun ?_
    rintro ⟨rest, ⟨i, hi, -⟩, -⟩
    rw [List.drop_nil] at hi
    exact not_opens_nil hi
  | cons c cs ih =>
    rw [findAmong, Option.or_eq_some_iff, findSome?_openers_eq_some_iff,
      findSome?_openers_eq_none_iff, ih]
    simp only [follows_cons_iff, or_and_right, exists_or, and_assoc, exists_and_left]

theorem findAmong_openers_append {early cs : List Char}
    (h : ∀ c ∈ early, c.toLower ≠ 'w' ∧ c.toLower ≠ 'o') :
    findAmong openers (early ++ cs) = findAmong openers cs := by
  induction early with
  | nil => rfl
  | cons c early ih =>
    obtain ⟨hc, hearly⟩ := List.forall_mem_cons.mp h
    have hnone : openers.findSome? (afterWord · (c :: (early ++ cs))) = none :=
      findSome?_openers_eq_none_iff.mpr fun _ => not_opens_of_first hc.1 hc.2
    rw [List.cons_append, findAmong, hnone, Option.none_or, ih hearly]

/-- A material after `made of` is one after `of`, and neither word opens before that `of`. -/
theorem findAmong_openers_of_madeOf {cs found : List Char}
    (h : afterWord "made of" cs = some found) : findAmong openers cs = some found := by
  obtain ⟨rest, ⟨_, hword, spelled, blank, rfl, hs, hblank⟩, rfl⟩ := afterWord_eq_some_iff.mp h
  cases List.mem_singleton.mp hword
  obtain ⟨made, ofWord, rfl, hmade, hof⟩ :=
    List.map_eq_append_iff.mp (hs.trans (by decide : _ = "made ".toList ++ "of".toList))
  rw [List.append_assoc, findAmong_openers_append]
  · refine findAmong_openers_eq_some_iff.mpr ⟨rest, ⟨0, ?_, nofun⟩, rfl⟩
    exact ⟨"of", by decide, ofWord, blank, rfl, hof, hblank⟩
  · intro c hc
    have hlower : c.toLower ∈ "made ".toList := hmade ▸ List.mem_map_of_mem hc
    constructor <;> rintro heq <;> rw [heq] at hlower <;> revert hlower <;> decide

theorem findAmong_keywords (cs : List Char) : findAmong keywords cs = findAmong openers cs := by
  induction cs with
  | nil => rfl
  | cons c cs ih =>
    have hsplit : keywords.findSome? (afterWord · (c :: cs)) =
        (openers.findSome? (afterWord · (c :: cs))).or (afterWord "made of" (c :: cs)) := by
      rw [show keywords = openers ++ ["made of"] from rfl, List.findSome?_append]
      simp only [List.findSome?_cons, List.findSome?_nil]
      cases afterWord "made of" (c :: cs) <;> rfl
    cases hmade : afterWord "made of" (c :: cs) with
    | none => rw [findAmong, findAmong, hsplit, hmade, Option.or_none, ih]
    | some found =>
      have hopeners := findAmong_openers_of_madeOf hmade
      rw [hopeners]
      rw [findAmong] at hopeners
      rw [findAmong, hsplit, hmade]
      cases hfind : openers.findSome? (afterWord · (c :: cs)) with
      | none => rfl
      | some other => rwa [hfind] at hopeners

theorem find?_eq_findAmong_openers (cs : List Char) : find? cs = findAmong openers cs :=
  (find?_eq_findAmong cs).trans (findAmong_keywords cs)

theorem named_ofPrompt (prompt : String) : Named prompt.toList (ofPrompt prompt).toList := by
  have hfind : ∀ rest, Follows openers prompt.toList rest →
      find? prompt.toList = some (line rest) := fun rest hrest => by
    rw [find?_eq_findAmong_openers, findAmong_openers_eq_some_iff]
    exact ⟨rest, hrest, rfl⟩
  unfold ofPrompt
  split
  · rename_i c cs hsome
    rw [find?_eq_findAmong_openers, findAmong_openers_eq_some_iff] at hsome
    obtain ⟨rest, hrest, hline⟩ := hsome
    rw [String.toList_ofList, hline]
    exact .introduced hrest (by rw [← hline]; exact List.cons_ne_nil c cs)
  · rename_i hnone
    refine .whole fun rest hrest => ?_
    cases hline : line rest with
    | nil => rfl
    | cons c cs => exact absurd ((hfind rest hrest).trans (congrArg some hline)) (hnone c cs)

theorem Named.eq {prompt material other : List Char} (h : Named prompt material)
    (h' : Named prompt other) : material = other := by
  cases h with
  | introduced hrest hne =>
    cases h' with
    | introduced hrest' => rw [hrest.rest_eq hrest']
    | whole hall => exact absurd (hall _ hrest) hne
  | whole hall =>
    cases h' with
    | introduced hrest' hne => exact absurd (hall _ hrest') hne
    | whole => rfl

/-- The text for a texture names the material in the prompt and nothing else, and `made of` finds
no other material than `of` does. -/
theorem texturePrompt_names_material (prompt material : String) :
    ((ObjectRequest.ofPrompt prompt).texturePrompt =
        "A seamless, tileable texture of " ++ material ↔
      Named prompt.toList material.toList) ∧
    find? prompt.toList = findAmong openers prompt.toList := by
  refine ⟨?_, find?_eq_findAmong_openers prompt.toList⟩
  have htext : (ObjectRequest.ofPrompt prompt).texturePrompt =
      "A seamless, tileable texture of " ++ ofPrompt prompt := rfl
  rw [htext, String.append_right_inj]
  constructor
  · rintro rfl
    exact named_ofPrompt prompt
  · intro h
    exact String.toList_inj.mp ((named_ofPrompt prompt).eq h)

end BlockScript.Material

import BlockScript.Text.Blank
import Mathlib

/-! Text without the blanks around it. -/

namespace BlockScript.Text

theorem dropWhile_of_prefix {p : Char → Bool} {cs ds : List Char} (h : ds <+: cs)
    (hc : cs.dropWhile p = cs) : ds.dropWhile p = ds := by
  obtain ⟨rest, rfl⟩ := h
  cases ds with
  | nil => rfl
  | cons d ds =>
    by_cases hd : p d = true
    · have hlen := congrArg List.length hc
      have hle := ((List.dropWhile_suffix (l := ds ++ rest) p)).length_le
      simp only [List.cons_append, List.dropWhile_cons, hd, if_true, List.length_cons] at hlen
      omega
    · rw [List.dropWhile_cons, if_neg hd]

theorem trimChars_eq (cs : List Char) :
    trimChars cs = (cs.dropWhile isBlank).rdropWhile isBlank :=
  rfl

theorem dropWhile_trimChars (cs : List Char) :
    (trimChars cs).dropWhile isBlank = trimChars cs := by
  refine dropWhile_of_prefix ?_ (List.dropWhile_idempotent isBlank cs)
  rw [trimChars_eq]
  exact List.rdropWhile_prefix ..

theorem trimChars_trimChars (cs : List Char) : trimChars (trimChars cs) = trimChars cs := by
  rw [trimChars_eq, dropWhile_trimChars, trimChars_eq]
  exact List.rdropWhile_idempotent ..

theorem trim_trim (s : String) : trim (trim s) = trim s := by
  simp only [trim, String.toList_ofList, trimChars_trimChars]

/-- What is left of some text when the blanks around it are taken away. -/
structure Trimmed (cs core : List Char) : Prop where
  split : ∃ front back, cs = front ++ core ++ back ∧ (∀ c ∈ front, isBlank c = true) ∧
    ∀ c ∈ back, isBlank c = true
  head : ∀ c ∈ core.head?, isBlank c = false
  last : ∀ c ∈ core.getLast?, isBlank c = false

theorem trimmed_trimChars (cs : List Char) : Trimmed cs (trimChars cs) where
  split := by
    refine ⟨cs.takeWhile isBlank, (cs.dropWhile isBlank).rtakeWhile isBlank, ?_,
      fun c => List.mem_takeWhile_imp, fun c => List.mem_rtakeWhile_imp⟩
    rw [trimChars_eq, List.append_assoc, List.rdropWhile_append_rtakeWhile,
      List.takeWhile_append_dropWhile]
  head c hc := by
    obtain ⟨rest, hcs⟩ := List.head?_eq_some_iff.mp hc
    have hdrop := dropWhile_trimChars cs
    rw [hcs] at hdrop
    by_contra hblank
    have hlen := congrArg List.length hdrop
    have hle := (List.dropWhile_suffix (l := rest) isBlank).length_le
    simp only [List.dropWhile_cons, Bool.not_eq_false] at hlen hblank
    rw [if_pos hblank, List.length_cons] at hlen
    omega
  last c hc := by
    obtain ⟨front, hcs⟩ := List.getLast?_eq_some_iff.mp hc
    have hne : (cs.dropWhile isBlank).rdropWhile isBlank ≠ [] := by
      rw [← trimChars_eq, hcs]
      simp
    have hlast := List.rdropWhile_last_not isBlank (cs.dropWhile isBlank) hne
    simpa [← trimChars_eq, hcs] using hlast

theorem trimChars_of_unblank {cs : List Char} (h : ∀ c ∈ cs, isBlank c = false) :
    trimChars cs = cs := by
  have hfront : cs.dropWhile isBlank = cs := by
    cases cs with
    | nil => rfl
    | cons c rest => simp [h c (by simp)]
  rw [trimChars_eq, hfront, List.rdropWhile_eq_self_iff]
  intro hne
  simp [h _ (List.getLast_mem hne)]

end BlockScript.Text

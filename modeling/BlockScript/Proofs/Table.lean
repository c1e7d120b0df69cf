import BlockScript.Table
import Mathlib

/-! Tables by their keys and bindings. Binding a name that is there keeps every other binding in
its place. -/

namespace BlockScript.Table

variable {α β : Type}

theorem mem_of_get? {t : Table α} {name : String} {value : α}
    (h : t.get? name = some value) : (name, value) ∈ t := by
  obtain ⟨l₁, l₂, hl, -⟩ := List.lookup_eq_some_iff.mp h
  rw [hl]
  exact List.mem_append_cons_self

theorem forall_insert {P : String × α → Prop} {t : Table α} {name : String} {value : α}
    (hn : P (name, value)) (ht : ∀ b ∈ t, P b) : ∀ b ∈ t.insert name value, P b := by
  induction t with
  | nil => exact List.forall_mem_singleton.mpr hn
  | cons a rest ih =>
    rw [List.forall_mem_cons] at ht
    rw [insert]
    split
    · rename_i hk
      rw [hk]
      exact List.forall_mem_cons.mpr ⟨hn, ht.2⟩
    · exact List.forall_mem_cons.mpr ⟨ht.1, ih ht.2⟩

theorem mem_insert_self (t : Table α) (name : String) (value : α) :
    (name, value) ∈ t.insert name value := by
  induction t with
  | nil => exact List.mem_singleton_self _
  | cons b rest ih =>
    rw [insert]
    split
    · rename_i hk
      rw [hk]
      exact List.mem_cons_self
    · exact List.mem_cons_of_mem _ ih

theorem get?_insert (t : Table α) (name : String) (value : α) (other : String) :
    (t.insert name value).get? other = if other = name then some value else t.get? other := by
  induction t with
  | nil =>
    by_cases h : other = name
    · simp [insert, get?, h]
    · have hne : (other == name) = false := by simpa using h
      simp [insert, get?, List.lookup_cons, h, hne]
  | cons b rest ih =>
    obtain ⟨k, v⟩ := b
    rw [insert]
    by_cases hk : k = name
    · subst hk
      by_cases h : other = k
      · simp [get?, h]
      · have hne : (other == k) = false := by simpa using h
        simp [get?, List.lookup_cons, h, hne]
    · rw [if_neg hk]
      simp only [get?] at ih ⊢
      rw [List.lookup_cons, List.lookup_cons, ih]
      by_cases h : other = k
      · simp [h, hk]
      · have hne : (other == k) = false := by simpa using h
        simp [hne]

theorem extend_snoc (t more : Table α) (b : String × α) :
    t.extend (more ++ [b]) = (t.extend more).insert b.1 b.2 := by
  simp only [extend, List.foldl_append, List.foldl_cons, List.foldl_nil]

theorem get?_extend {t more : Table α} {name : String} {value : α} (h : (name, value) ∈ more)
    (hsame : ∀ b ∈ more, b.1 = name → b.2 = value) : (t.extend more).get? name = some value := by
  induction more using List.reverseRecOn with
  | nil => cases h
  | append_singleton more b ih =>
    rw [extend_snoc, get?_insert]
    by_cases hb : name = b.1
    · rw [if_pos hb, hsame b (by simp) hb.symm]
    · rw [if_neg hb]
      refine ih ?_ fun c hc => hsame c (List.mem_append_left _ hc)
      rcases List.mem_append.mp h with h | h
      · exact h
      · exact absurd (congrArg Prod.fst (List.mem_singleton.mp h)) hb

theorem forall₂_insert {R : String × α → String × α → Prop} (hR : ∀ b, R b b)
    {t : Table α} {name : String} {old new : α} (h : t.get? name = some old)
    (hn : R (name, old) (name, new)) : List.Forall₂ R t (t.insert name new) := by
  induction t with
  | nil => cases h
  | cons b rest ih =>
    obtain ⟨k, v⟩ := b
    rw [insert]
    by_cases hk : k = name
    · subst hk
      have hv : v = old := by simpa [get?, List.lookup_cons] using h
      subst hv
      rw [if_pos rfl]
      exact .cons hn (List.forall₂_same.mpr fun b _ => hR b)
    · have hne : (name == k) = false := by simpa using Ne.symm hk
      have hrest : Table.get? rest name = some old := by
        simpa [get?, List.lookup_cons, hne] using h
      rw [if_neg hk]
      exact .cons (hR _) (ih hrest)

theorem insert_self {t : Table α} {name : String} {value : α} (h : t.get? name = some value) :
    t.insert name value = t := by
  have hsame := forall₂_insert (fun b => Eq.refl b) h rfl
  rw [List.forall₂_eq_eq_eq] at hsame
  exact hsame.symm

theorem keys_insert {t : Table α} {name : String} {old : α}
    (h : t.get? name = some old) (value : α) : (t.insert name value).keys = t.keys := by
  have hsame : List.Forall₂ (fun b b' => b.1 = b'.1) t (t.insert name value) :=
    forall₂_insert (R := fun b b' => b.1 = b'.1) (fun _ => rfl) h rfl
  have hkeys : List.Forall₂ (· = ·) (t.map (·.1)) ((t.insert name value).map (·.1)) := by
    rw [List.forall₂_map_left_iff, List.forall₂_map_right_iff]
    exact hsame
  rw [List.forall₂_eq_eq_eq] at hkeys
  exact hkeys.symm

theorem keys_prefix_insert (t : Table α) (name : String) (value : α) :
    t.keys <+: (t.insert name value).keys := by
  induction t with
  | nil => exact List.nil_prefix
  | cons b rest ih =>
    rw [insert]
    by_cases hk : b.1 = name
    · rw [if_pos hk]
      exact List.prefix_rfl
    · rw [if_neg hk]
      exact List.cons_prefix_cons.mpr ⟨rfl, ih⟩

theorem keys_insert_congr {t : Table α} {u : Table β} (h : t.keys = u.keys)
    (name : String) (a : α) (b : β) : (t.insert name a).keys = (u.insert name b).keys := by
  induction t generalizing u with
  | nil =>
    cases u with
    | nil => rfl
    | cons c rest => cases h
  | cons c rest ih =>
    cases u with
    | nil => cases h
    | cons d rest' =>
      obtain ⟨hk, hrest⟩ := List.cons.inj h
      have hk' : c.1 = d.1 := hk
      rw [insert, insert, hk']
      split
      · exact congrArg (d.1 :: ·) hrest
      · exact congrArg (d.1 :: ·) (ih hrest)

theorem get?_eq_none_iff {t : Table α} {name : String} : t.get? name = none ↔ name ∉ t.keys := by
  simp only [get?, keys, List.lookup_eq_none_iff, List.mem_map]
  grind

theorem keys_erase (t : Table α) (name : String) :
    (t.erase name).keys = t.keys.filter (· != name) := by
  simp only [keys, erase, List.filter_map]
  rfl

theorem get?_mapValues (f : α → α) (t : Table α) (name : String) :
    (t.mapValues f).get? name = (t.get? name).map f := by
  induction t with
  | nil => rfl
  | cons b t ih =>
    obtain ⟨k, v⟩ := b
    by_cases h : name = k
    · simp [get?, mapValues, h]
    · have hne : (name == k) = false := by simpa using h
      simpa [get?, mapValues, List.lookup_cons, hne] using ih

theorem get?_erase (t : Table α) (name other : String) :
    (t.erase name).get? other = if other = name then none else t.get? other := by
  induction t with
  | nil => exact (ite_self none).symm
  | cons b t ih =>
    obtain ⟨k, v⟩ := b
    simp only [get?, erase] at ih ⊢
    by_cases hk : k = name
    · rw [List.filter_cons_of_neg (by simpa using hk), ih]
      by_cases h : other = name
      · rw [if_pos h, if_pos h]
      · have hne : (other == k) = false := by simpa [hk] using h
        rw [if_neg h, if_neg h, List.lookup_cons, hne]
    · rw [List.filter_cons_of_pos (by simpa using hk), List.lookup_cons, List.lookup_cons, ih]
      by_cases h : other = name
      · have hne : (other == k) = false := by simpa [h] using Ne.symm hk
        rw [if_pos h, if_pos h, hne]
      · rw [if_neg h, if_neg h]

theorem forall_mapValues {P : String × α → Prop} {f : α → α} {t : Table α}
    (h : ∀ b ∈ t, P (b.1, f b.2)) : ∀ b ∈ t.mapValues f, P b := by
  rw [mapValues, List.forall_mem_map]
  exact h

theorem keys_mapValues (f : α → α) (t : Table α) :
    (t.mapValues f).keys = t.keys := by
  simp [keys, mapValues]

theorem erase_of_get?_none {t : Table α} {name : String}
    (h : t.get? name = none) : t.erase name = t := by
  rw [erase, List.filter_eq_self]
  intro b hb
  rw [get?, List.lookup_eq_none_iff] at h
  simpa [bne, BEq.comm] using h b hb

end BlockScript.Table

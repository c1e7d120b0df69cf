import BlockScript.Catalog.Label
import Mathlib

/-! Labels are read without loss. What is read is written as the label was, and it is the only way
to split the label into slots and the texts between them. -/

namespace BlockScript

namespace LabelPart

def isText : LabelPart → Bool
  | text _ => true
  | slot _ => false

@[simp]
theorem ofText_nil : ofText [] = [] :=
  rfl

@[simp]
theorem flatMap_chars_ofText (cs : List Char) : (ofText cs).flatMap chars = cs := by
  cases cs with
  | nil => rfl
  | cons c cs => simp [ofText, chars]

theorem ofText_toList {s : String} (hs : s ≠ "") : ofText s.toList = [text s] := by
  cases hcs : s.toList with
  | nil => exact absurd (String.toList_eq_nil_iff.mp hcs) hs
  | cons c cs => simp [ofText, ← hcs]

end LabelPart

namespace Label

/-- A label is split when none of its texts is empty or next to another one, every slot ends at its
first closing brace, and a brace that opens within a text does so in the last part and is never
closed. -/
structure IsSplit (l : Label) : Prop where
  nonempty : ∀ s, .text s ∈ l → s ≠ ""
  apart : l.IsChain fun p q => ¬ (p.isText ∧ q.isText)
  closed : ∀ name, .slot name ∈ l → '\x7d' ∉ name.toList
  dangling : ∀ before s after, l = before ++ .text s :: after →
    ∀ u v, s.toList = u ++ '\x7b' :: v → after = [] ∧ '\x7d' ∉ v

theorem isSplit_nil : IsSplit [] where
  nonempty := nofun
  apart := .nil
  closed := nofun
  dangling := by simp

theorem isSplit_text {s : String} (hs : s ≠ "")
    (hv : ∀ u v, s.toList = u ++ '\x7b' :: v → '\x7d' ∉ v) : IsSplit [.text s] where
  nonempty t ht := by
    cases List.mem_singleton.mp ht
    exact hs
  apart := .singleton _
  closed := by simp
  dangling before t after hl u v ht := by
    cases before with
    | nil =>
      cases hl
      exact ⟨rfl, hv u v ht⟩
    | cons p before => simp at hl

theorem IsSplit.slot_cons {name : String} {l : Label} (h : IsSplit l)
    (hname : '\x7d' ∉ name.toList) : IsSplit (.slot name :: l) where
  nonempty s hs := h.nonempty s (by simpa using hs)
  apart := List.isChain_cons.mpr ⟨fun _ _ => by simp [LabelPart.isText], h.apart⟩
  closed other ho := by
    rcases List.mem_cons.mp ho with heq | ho
    · cases heq
      exact hname
    · exact h.closed other ho
  dangling before s after hl := by
    cases before with
    | nil => cases hl
    | cons p before => exact h.dangling before s after (List.cons.inj hl).2

theorem IsSplit.text_cons {s name : String} {l : Label} (h : IsSplit (.slot name :: l))
    (hs : s ≠ "") (hb : '\x7b' ∉ s.toList) : IsSplit (.text s :: .slot name :: l) where
  nonempty t ht := by
    rcases List.mem_cons.mp ht with heq | ht
    · cases heq
      exact hs
    · exact h.nonempty t ht
  apart := List.isChain_cons_cons.mpr ⟨by simp [LabelPart.isText], h.apart⟩
  closed other ho := h.closed other (by simpa using ho)
  dangling before t after hl := by
    cases before with
    | nil =>
      cases hl
      intro u v ht
      exact absurd (ht ▸ by simp) hb
    | cons p before => exact h.dangling before t after (List.cons.inj hl).2

theorem IsSplit.tail {p : LabelPart} {l : Label} (h : IsSplit (p :: l)) : IsSplit l where
  nonempty s hs := h.nonempty s (List.mem_cons_of_mem p hs)
  apart := h.apart.tail
  closed name hname := h.closed name (List.mem_cons_of_mem p hname)
  dangling before s after hl := h.dangling (p :: before) s after (congrArg (p :: ·) hl)

theorem isSplit_ofText {cs : List Char} (hv : ∀ u v, cs = u ++ '\x7b' :: v → '\x7d' ∉ v) :
    IsSplit (LabelPart.ofText cs) := by
  cases cs with
  | nil => exact isSplit_nil
  | cons c cs => exact isSplit_text (by simp) (by simpa using hv)

theorem IsSplit.ofText_append {text : List Char} {name : String} {l : Label}
    (h : IsSplit (.slot name :: l)) (hb : '\x7b' ∉ text) :
    IsSplit (LabelPart.ofText text ++ .slot name :: l) := by
  cases text with
  | nil => exact h
  | cons c text => exact h.text_cons (by simp) (by simpa using hb)

/-- The characters that have been read and that no part holds yet. -/
def inHand (text : List Char) (slot : Option (List Char)) : List Char :=
  text ++ (slot.map ('\x7b' :: ·)).getD []

theorem flatMap_chars_parseFrom (text : List Char) (slot : Option (List Char))
    (cs : List Char) :
    (parseFrom text slot cs).flatMap LabelPart.chars = inHand text slot ++ cs := by
  induction cs generalizing text slot with
  | nil => simp [parseFrom, inHand]
  | cons c rest ih =>
    cases slot with
    | none =>
      by_cases hopen : c = '\x7b'
      · simp [parseFrom, hopen, ih, inHand]
      · simp [parseFrom, hopen, ih, inHand]
    | some name =>
      by_cases hclose : c = '\x7d'
      · simp [parseFrom, hclose, ih, inHand, LabelPart.chars]
      · simp [parseFrom, hclose, ih, inHand]

/-- The first brace in hand is the one that opens the slot, and none in hand closes it. -/
theorem close_not_mem_of_inHand {text : List Char} {slot : Option (List Char)}
    {u v : List Char} (hb : '\x7b' ∉ text) (hc : ∀ name ∈ slot, '\x7d' ∉ name)
    (h : inHand text slot = u ++ '\x7b' :: v) : '\x7d' ∉ v := by
  cases slot with
  | none =>
    rw [inHand, Option.map_none, Option.getD_none, List.append_nil] at h
    exact absurd (h ▸ by simp) hb
  | some name =>
    have hname : '\x7d' ∉ name := hc name rfl
    rw [inHand, Option.map_some, Option.getD_some] at h
    rcases List.append_eq_append_iff.mp h with ⟨w, -, hw⟩ | ⟨w, hw, hv⟩
    · cases w with
      | nil => rwa [← (List.cons.inj hw).2]
      | cons c w =>
        obtain ⟨-, rfl⟩ := List.cons.inj hw
        exact fun hv => hname (List.mem_append_right w (List.mem_cons_of_mem _ hv))
    · cases w with
      | nil => rwa [(List.cons.inj hv).2]
      | cons c w =>
        obtain ⟨rfl, -⟩ := List.cons.inj hv
        exact absurd (hw ▸ by simp) hb

theorem isSplit_parseFrom {text : List Char} {slot : Option (List Char)} (cs : List Char)
    (hb : '\x7b' ∉ text) (hc : ∀ name ∈ slot, '\x7d' ∉ name) :
    IsSplit (parseFrom text slot cs) := by
  induction cs generalizing text slot with
  | nil => exact isSplit_ofText fun u v h => close_not_mem_of_inHand hb hc h
  | cons c rest ih =>
    cases slot with
    | none =>
      rw [parseFrom]
      split
      · exact ih hb (by simp)
      · rename_i hopen
        exact ih (by simpa [hb] using Ne.symm hopen) hc
    | some name =>
      have hname : '\x7d' ∉ name := hc name rfl
      rw [parseFrom]
      split
      · have hrest : IsSplit (parseFrom [] none rest) := ih List.not_mem_nil (by simp)
        exact (hrest.slot_cons (by simpa using hname)).ofText_append hb
      · rename_i hclose
        exact ih hb (by simpa [hname] using Ne.symm hclose)

theorem parseFrom_append_text {cs : List Char} (hb : '\x7b' ∉ cs) (text rest : List Char) :
    parseFrom text none (cs ++ rest) = parseFrom (text ++ cs) none rest := by
  induction cs generalizing text with
  | nil => rw [List.nil_append, List.append_nil]
  | cons c cs ih =>
    rw [List.mem_cons, not_or] at hb
    rw [List.cons_append, parseFrom, if_neg (Ne.symm hb.1), ih hb.2, List.append_assoc,
      List.singleton_append]

theorem parseFrom_append_name {cs : List Char} (hc : '\x7d' ∉ cs)
    (text name rest : List Char) :
    parseFrom text (some name) (cs ++ rest) = parseFrom text (some (name ++ cs)) rest := by
  induction cs generalizing name with
  | nil => rw [List.nil_append, List.append_nil]
  | cons c cs ih =>
    rw [List.mem_cons, not_or] at hc
    have hstep : parseFrom text (some name) (c :: (cs ++ rest)) =
        parseFrom text (some (name ++ [c])) (cs ++ rest) := by
      rw [parseFrom]
      exact if_neg (Ne.symm hc.1)
    rw [List.cons_append, hstep, ih hc.2, List.append_assoc, List.singleton_append]

theorem parseFrom_open (text rest : List Char) :
    parseFrom text none ('\x7b' :: rest) = parseFrom text (some []) rest := by
  rw [parseFrom]
  exact if_pos rfl

theorem parseFrom_close (text name rest : List Char) :
    parseFrom text (some name) ('\x7d' :: rest) =
      LabelPart.ofText text ++ .slot (.ofList name) :: parseFrom [] none rest := by
  rw [parseFrom]
  exact if_pos rfl

theorem parseFrom_slot {name : String} (hc : '\x7d' ∉ name.toList) (text rest : List Char) :
    parseFrom text none ((LabelPart.slot name).chars ++ rest) =
      LabelPart.ofText text ++ .slot name :: parseFrom [] none rest := by
  rw [LabelPart.chars, List.append_assoc, List.cons_append, parseFrom_open,
    parseFrom_append_name hc, List.singleton_append, parseFrom_close, List.nil_append,
    String.ofList_toList]

theorem parseFrom_unclosed {cs : List Char}
    (hv : ∀ u v, cs = u ++ '\x7b' :: v → '\x7d' ∉ v) :
    parseFrom [] none cs = LabelPart.ofText cs := by
  by_cases hb : '\x7b' ∈ cs
  · obtain ⟨u, v, rfl, hu⟩ := List.eq_append_cons_of_mem hb
    have hclose : '\x7d' ∉ v := hv u v rfl
    rw [parseFrom_append_text hu, parseFrom_open, ← List.append_nil v,
      parseFrom_append_name hclose]
    simp [parseFrom]
  · rw [← List.append_nil cs, parseFrom_append_text hb]
    simp [parseFrom]

theorem IsSplit.parseFrom_flatMap_chars {l : Label} (h : IsSplit l) {text : List Char}
    (hb : '\x7b' ∉ text) (ht : text ≠ [] → ∀ p ∈ l.head?, ¬ p.isText) :
    parseFrom text none (l.flatMap LabelPart.chars) = LabelPart.ofText text ++ l := by
  -- A text is read before it is known to be a part, so the induction keeps it in hand.
  induction l generalizing text with
  | nil => simp [parseFrom]
  | cons p l ih =>
    rw [List.flatMap_cons]
    cases p with
    | slot name =>
      rw [parseFrom_slot (h.closed name List.mem_cons_self),
        ih h.tail List.not_mem_nil (absurd rfl), LabelPart.ofText_nil, List.nil_append]
    | text s =>
      have hs : s ≠ "" := h.nonempty s List.mem_cons_self
      obtain rfl : text = [] := by
        by_contra hne
        exact ht hne (.text s) rfl rfl
      rw [LabelPart.ofText_nil, List.nil_append, LabelPart.chars]
      by_cases hopen : '\x7b' ∈ s.toList
      · obtain ⟨u, v, huv, -⟩ := List.eq_append_cons_of_mem hopen
        obtain rfl : l = [] := (h.dangling [] s l rfl u v huv).1
        rw [List.flatMap_nil, List.append_nil,
          parseFrom_unclosed fun u v huv => (h.dangling [] s [] rfl u v huv).2,
          LabelPart.ofText_toList hs]
      · have hnext : ∀ q ∈ l.head?, ¬ q.isText := fun q hq hqt =>
          (List.isChain_cons.mp h.apart).1 q hq ⟨rfl, hqt⟩
        rw [parseFrom_append_text hopen, List.nil_append, ih h.tail hopen fun _ => hnext,
          LabelPart.ofText_toList hs, List.singleton_append]

theorem toText_parse (s : String) : (parse s).toText = s := by
  rw [toText, parse, flatMap_chars_parseFrom, inHand, Option.map_none, Option.getD_none,
    List.append_nil, List.nil_append, String.ofList_toList]

theorem isSplit_parse (s : String) : IsSplit (parse s) :=
  isSplit_parseFrom s.toList List.not_mem_nil (by simp)

theorem IsSplit.parse_toText {l : Label} (h : IsSplit l) : parse l.toText = l := by
  rw [parse, toText, String.toList_ofList,
    h.parseFrom_flatMap_chars List.not_mem_nil (absurd rfl), LabelPart.ofText_nil,
    List.nil_append]

/-- Reading loses nothing: what is read from a label is split and, written out, is the label again.
No other split label is written this way. -/
theorem parse_eq_iff_isSplit (s : String) (l : Label) :
    parse s = l ↔ l.toText = s ∧ IsSplit l := by
  constructor
  · rintro rfl
    exact ⟨toText_parse s, isSplit_parse s⟩
  · rintro ⟨rfl, hl⟩
    exact hl.parse_toText

example : parse "\x7d\x7b\x7ba\x7db\x7b" =
    [.text "\x7d", .slot "\x7ba", .text "b\x7b"] := by decide

end Label

end BlockScript

import BlockScript.Proofs.Text.Blank
import BlockScript.Value
import Mathlib

/-! The grammar of numerals. A reader gives a number for just the texts that its rule of the grammar
describes, and text counts as a number just if it is a numeral or a hexadecimal word with a sign
inside. -/

namespace BlockScript.Number

def Digits (cs : List Char) : Prop :=
  ∀ c ∈ cs, c.isDigit = true

def Figure (cs : List Char) : Prop :=
  cs ≠ [] ∧ Digits cs

/-- What `P` describes, with an optional sign before it. -/
inductive Signed (P : List Char → Prop) : List Char → Prop
  | bare {cs : List Char} (h : P cs) : Signed P cs
  | plus {cs : List Char} (h : P cs) : Signed P ('+' :: cs)
  | minus {cs : List Char} (h : P cs) : Signed P ('-' :: cs)

inductive Scale : List Char → Prop
  | absent : Scale []
  | exponent {mark : Char} {cs : List Char} (hmark : mark = 'e' ∨ mark = 'E')
    (h : Signed Figure cs) : Scale (mark :: cs)

/-- Digits with an optional point and at least one digit, and then perhaps an exponent. -/
inductive Decimal : List Char → Prop
  | whole {digits scale : List Char} (hd : Figure digits) (hs : Scale scale) :
    Decimal (digits ++ scale)
  | pointed {digits fraction scale : List Char} (hd : Figure (digits ++ fraction))
    (hs : Scale scale) : Decimal (digits ++ '.' :: (fraction ++ scale))

def hexDigits : List Char := "0123456789abcdef".toList

/-- The number that hexadecimal digits of either case stand for. -/
def hexNumber (cs : List Char) : Nat :=
  Nat.ofDigits 16 (cs.reverse.map fun c => hexDigits.idxOf c.toLower)

/-- One hexadecimal digit or more, for a number below `2 ^ 64`. -/
structure HexWord (cs : List Char) : Prop where
  nonempty : cs ≠ []
  digits : ∀ c ∈ cs, c.toLower ∈ hexDigits
  fits : hexNumber cs < 2 ^ 64

/-- A mark, and what `P` describes after it. -/
inductive Marked (P : List Char → Prop) : List Char → Prop
  | lower {cs : List Char} (h : P cs) : Marked P ('0' :: 'x' :: cs)
  | upper {cs : List Char} (h : P cs) : Marked P ('0' :: 'X' :: cs)

def Infinite (cs : List Char) : Prop :=
  cs = "Infinity".toList

/-- The texts that count as numbers, without the blanks around them. -/
def Numeral (cs : List Char) : Prop :=
  cs = [] ∨ Signed Infinite cs ∨ Marked HexWord cs ∨ Signed Decimal cs

/-- A hexadecimal word with a plus sign between its mark and its digits. -/
def InnerPlus (cs : List Char) : Prop :=
  Marked (fun rest => ∃ digits, rest = '+' :: digits ∧ HexWord digits) cs

/-- What `P` describes has no sign at its front. -/
def Signless (P : List Char → Prop) : Prop :=
  ∀ cs, ¬ P ('+' :: cs) ∧ ¬ P ('-' :: cs)

theorem Signless.plus_iff {P : List Char → Prop} (hP : Signless P) {cs : List Char} :
    Signed P ('+' :: cs) ↔ P cs := by
  constructor
  · intro h
    cases h with
    | bare h => exact absurd h (hP cs).1
    | plus h => exact h
  · exact .plus

theorem Signless.minus_iff {P : List Char → Prop} (hP : Signless P) {cs : List Char} :
    Signed P ('-' :: cs) ↔ P cs := by
  constructor
  · intro h
    cases h with
    | bare h => exact absurd h (hP cs).2
    | minus h => exact h
  · exact .minus

theorem signed_iff {P : List Char → Prop} {cs : List Char} (hplus : ∀ rest, cs ≠ '+' :: rest)
    (hminus : ∀ rest, cs ≠ '-' :: rest) : Signed P cs ↔ P cs := by
  constructor
  · intro h
    cases h with
    | bare h => exact h
    | plus h => exact absurd rfl (hplus _)
    | minus h => exact absurd rfl (hminus _)
  · exact .bare

theorem figure_signless : Signless Figure :=
  fun _ => ⟨fun h => absurd (h.2 '+' (by simp)) (by decide),
    fun h => absurd (h.2 '-' (by simp)) (by decide)⟩

theorem infinite_signless : Signless Infinite :=
  fun _ => ⟨nofun, nofun⟩

theorem figure_iff {cs : List Char} :
    Figure cs ↔ (cs.isEmpty || !cs.all Char.isDigit) = false := by
  simp [Figure, Digits]

theorem readExponent?_isSome_iff (cs : List Char) :
    (readExponent? cs).isSome = true ↔ Signed Figure cs := by
  unfold readExponent?
  split
  rename_i negative digits hsign
  have hfigure : (if (digits.isEmpty || !digits.all Char.isDigit) = true then none
      else if negative = true then some (-(readDigits digits : Int))
      else some (readDigits digits : Int)).isSome = true ↔ Figure digits := by
    rw [figure_iff]
    cases digits.isEmpty || !digits.all Char.isDigit <;> cases negative <;> simp
  rw [hfigure]
  split at hsign <;> cases hsign
  · exact figure_signless.minus_iff.symm
  · exact figure_signless.plus_iff.symm
  · rename_i hminus hplus
    exact (signed_iff hplus hminus).symm

theorem readScale?_isSome_iff (cs : List Char) : (readScale? cs).isSome = true ↔ Scale cs := by
  cases cs with
  | nil => exact iff_of_true rfl .absent
  | cons mark rest =>
    rw [readScale?]
    by_cases hmark : mark = 'e' ∨ mark = 'E'
    · rw [if_pos hmark, readExponent?_isSome_iff]
      constructor
      · exact .exponent hmark
      · rintro ⟨⟩
        assumption
    · rw [if_neg hmark]
      refine iff_of_false (by simp) ?_
      rintro ⟨⟩
      contradiction

def Stops (cs : List Char) : Prop :=
  ∀ c ∈ cs.head?, c.isDigit = false

theorem stops_dropWhile (cs : List Char) : Stops (cs.dropWhile Char.isDigit) := by
  intro c hc
  have h := List.head?_dropWhile_not Char.isDigit cs
  rw [Option.mem_def.mp hc] at h
  simpa using h

theorem Scale.stops {cs : List Char} (h : Scale cs) : Stops cs := by
  cases h with
  | absent => exact nofun
  | exponent hmark h =>
    rintro c ⟨⟩
    rcases hmark with rfl | rfl <;> rfl

theorem takeWhile_digits {digits rest : List Char} (hd : Digits digits) (hr : Stops rest) :
    (digits ++ rest).takeWhile Char.isDigit = digits ∧
      (digits ++ rest).dropWhile Char.isDigit = rest := by
  rw [List.takeWhile_append_of_pos hd, List.dropWhile_append_of_pos hd]
  cases rest with
  | nil => simp
  | cons c rest =>
    have hc := hr c rfl
    simp [hc]

theorem readDecimal?_pointed {digits fraction rest : List Char} (hd : Digits digits)
    (hf : Digits fraction) (hr : Stops rest) :
    readDecimal? (digits ++ '.' :: (fraction ++ rest)) =
      if digits ++ fraction = [] then none
      else (readScale? rest).map fun scale =>
        ofDecimal (readDigits (digits ++ fraction)) (scale - fraction.length) := by
  have hpoint : Stops ('.' :: (fraction ++ rest)) := by
    rintro c ⟨⟩
    rfl
  obtain ⟨htake, hdrop⟩ := takeWhile_digits hd hpoint
  obtain ⟨htake', hdrop'⟩ := takeWhile_digits hf hr
  simp only [readDecimal?, htake, hdrop, htake', hdrop', Bool.and_eq_true, List.isEmpty_iff,
    List.append_eq_nil_iff]

theorem readDecimal?_whole {digits rest : List Char} (hd : Digits digits) (hr : Stops rest)
    (hpoint : rest.head? ≠ some '.') :
    readDecimal? (digits ++ rest) =
      if digits = [] then none
      else (readScale? rest).map fun scale => ofDecimal (readDigits digits) scale := by
  obtain ⟨htake, hdrop⟩ := takeWhile_digits hd hr
  simp only [readDecimal?, htake, hdrop]
  split
  · exact absurd rfl hpoint
  · simp

theorem readDecimal?_isSome_iff (cs : List Char) :
    (readDecimal? cs).isSome = true ↔ Decimal cs := by
  constructor
  · intro h
    have hd : Digits (cs.takeWhile Char.isDigit) := fun c => List.mem_takeWhile_imp
    have hr := stops_dropWhile cs
    rw [← List.takeWhile_append_dropWhile (p := Char.isDigit) (l := cs)] at h ⊢
    generalize cs.takeWhile Char.isDigit = digits at hd h
    generalize cs.dropWhile Char.isDigit = rest at hr h
    by_cases hpoint : rest.head? = some '.'
    · obtain ⟨rest, rfl⟩ := List.head?_eq_some_iff.mp hpoint
      have hf : Digits (rest.takeWhile Char.isDigit) := fun c => List.mem_takeWhile_imp
      have hr := stops_dropWhile rest
      rw [← List.takeWhile_append_dropWhile (p := Char.isDigit) (l := rest)] at h ⊢
      generalize rest.takeWhile Char.isDigit = fraction at hf h
      generalize rest.dropWhile Char.isDigit = scale at hr h
      rw [readDecimal?_pointed hd hf hr] at h
      split at h
      · cases h
      · rename_i hne
        rw [Option.isSome_map, readScale?_isSome_iff] at h
        exact .pointed ⟨hne, List.forall_mem_append.mpr ⟨hd, hf⟩⟩ h
    · rw [readDecimal?_whole hd hr hpoint] at h
      split at h
      · cases h
      · rename_i hne
        rw [Option.isSome_map, readScale?_isSome_iff] at h
        exact .whole ⟨hne, hd⟩ h
  · rintro (⟨⟨hne, hd⟩, hs⟩ | ⟨⟨hne, hd⟩, hs⟩)
    · rw [readDecimal?_whole hd hs.stops, if_neg hne, Option.isSome_map, readScale?_isSome_iff]
      · exact hs
      · cases hs with
        | absent => exact nofun
        | exponent hmark => rcases hmark with rfl | rfl <;> simp
    · obtain ⟨hd, hf⟩ := List.forall_mem_append.mp hd
      rw [readDecimal?_pointed hd hf hs.stops, if_neg hne, Option.isSome_map,
        readScale?_isSome_iff]
      exact hs

theorem hexValue?_of_ascii : ∀ n : Fin 128,
    hexValue? (Char.ofNat n) = if (Char.ofNat n).toLower ∈ hexDigits
      then some (hexDigits.idxOf (Char.ofNat n).toLower) else none := by
  decide +kernel

theorem toNat_of_mem_hexDigits {c : Char} (h : c ∈ hexDigits) : c.toNat < 128 := by
  have hall : hexDigits.all (·.toNat < 128) = true := by decide
  exact decide_eq_true_iff.mp (List.all_eq_true.mp hall c h)

theorem hexValue?_eq (c : Char) :
    hexValue? c = if c.toLower ∈ hexDigits then some (hexDigits.idxOf c.toLower) else none := by
  by_cases hascii : c.toNat < 128
  · have h := hexValue?_of_ascii ⟨c.toNat, hascii⟩
    rwa [Char.ofNat_toNat] at h
  · have hbeyond (d : Char) (hd : d.toNat < 128) : ¬ c ≤ d :=
      fun h => hascii (Nat.lt_of_le_of_lt (UInt32.le_iff_toNat_le.mp h) hd)
    have hdigit : c.isDigit = false := by
      rw [Char.isDigit, Bool.and_eq_false_iff, decide_eq_false_iff_not, decide_eq_false_iff_not]
      exact .inr (hbeyond '9' (by decide))
    have hlower : c.toLower = c := by
      rw [Char.toLower, dif_neg]
      exact fun h => hbeyond 'Z' (by decide) h.2
    have hmem : c.toLower ∉ hexDigits := by
      rw [hlower]
      exact fun h => hascii (toNat_of_mem_hexDigits h)
    rw [hexValue?, if_neg (by simp [hdigit]), if_neg fun h => hbeyond 'f' (by decide) h.2,
      if_neg fun h => hbeyond 'F' (by decide) h.2, if_neg hmem]

theorem hexNumber_cons (c : Char) (cs : List Char) :
    hexNumber (c :: cs) = hexDigits.idxOf c.toLower * 16 ^ cs.length + hexNumber cs := by
  rw [hexNumber, List.reverse_cons, List.map_append, Nat.ofDigits_append, List.length_map,
    List.length_reverse, List.map_singleton, Nat.ofDigits_singleton, hexNumber]
  ring

theorem foldlM_hex_eq_some_iff (n m : Nat) (cs : List Char) :
    cs.foldlM (fun n c => (hexValue? c).map (16 * n + ·)) n = some m ↔
      (∀ c ∈ cs, c.toLower ∈ hexDigits) ∧ m = n * 16 ^ cs.length + hexNumber cs := by
  induction cs generalizing n with
  | nil => simp [hexNumber, eq_comm]
  | cons c cs ih =>
    rw [List.foldlM_cons, hexValue?_eq, List.forall_mem_cons, hexNumber_cons, List.length_cons]
    by_cases hc : c.toLower ∈ hexDigits
    · rw [if_pos hc, Option.map_some, Option.bind_eq_bind, Option.bind_some, ih,
        and_iff_right hc]
      ring_nf
    · rw [if_neg hc]
      simp [hc]

theorem readHex?_eq_some_iff {cs : List Char} {m : Nat} :
    readHex? cs = some m ↔
      cs ≠ [] ∧ (∀ c ∈ cs, c.toLower ∈ hexDigits) ∧ m = hexNumber cs := by
  rw [readHex?]
  split
  · rename_i h
    simp [List.isEmpty_iff.mp h]
  · rename_i h
    have hne : cs ≠ [] := fun hcs => h (List.isEmpty_iff.mpr hcs)
    rw [foldlM_hex_eq_some_iff, Nat.zero_mul, Nat.zero_add, and_iff_right hne]

/-- The number that hexadecimal digits give, if it is a word. -/
def word? (digits : List Char) : Option Float :=
  (readHex? digits).bind fun n => if n < 1 <<< 64 then some n.toUInt64.toFloat else none

theorem word?_isSome_iff (digits : List Char) : (word? digits).isSome = true ↔ HexWord digits := by
  rw [word?, Nat.shiftLeft_eq, Nat.one_mul]
  constructor
  · intro h
    obtain ⟨n, hn⟩ := Option.isSome_iff_exists.mp (Option.isSome_of_isSome_bind h)
    obtain ⟨hne, hd, rfl⟩ := readHex?_eq_some_iff.mp hn
    refine ⟨hne, hd, ?_⟩
    by_contra hlarge
    rw [hn, Option.bind_some, if_neg hlarge] at h
    cases h
  · intro h
    rw [readHex?_eq_some_iff.mpr ⟨h.nonempty, h.digits, rfl⟩, Option.bind_some, if_pos h.fits]
    rfl

theorem readHexWord?_plus (digits : List Char) : readHexWord? ('+' :: digits) = word? digits := by
  rw [readHexWord?, word?]
  cases readHex? digits <;> rfl

theorem readHexWord?_bare {digits : List Char} (h : ∀ rest, digits ≠ '+' :: rest) :
    readHexWord? digits = word? digits := by
  rw [readHexWord?, word?]
  · cases readHex? digits <;> rfl
  · exact h

theorem not_hexWord_plus (cs : List Char) : ¬ HexWord ('+' :: cs) :=
  fun h => absurd (h.digits '+' (by simp)) (by decide)

theorem readHexWord?_isSome_iff (cs : List Char) : (readHexWord? cs).isSome = true ↔
    HexWord cs ∨ ∃ digits, cs = '+' :: digits ∧ HexWord digits := by
  by_cases hplus : ∃ digits, cs = '+' :: digits
  · obtain ⟨digits, rfl⟩ := hplus
    rw [readHexWord?_plus, word?_isSome_iff]
    constructor
    · exact fun h => .inr ⟨digits, rfl, h⟩
    · rintro (h | ⟨_, ⟨⟩, h⟩)
      · exact absurd h (not_hexWord_plus digits)
      · exact h
  · rw [readHexWord?_bare fun rest h => hplus ⟨rest, h⟩, word?_isSome_iff]
    exact ⟨.inl, fun h => h.resolve_right fun ⟨digits, hd, _⟩ => hplus ⟨digits, hd⟩⟩

theorem readUnsigned?_isSome_iff (cs : List Char) :
    (readUnsigned? cs).isSome = true ↔ Infinite cs ∨ Decimal cs := by
  rw [readUnsigned?, ← readDecimal?_isSome_iff]
  split
  · rename_i h
    exact iff_of_true rfl (.inl h)
  · rename_i h
    exact ⟨.inr, fun h' => h'.resolve_left h⟩

theorem decimal_signless : Signless Decimal := by
  intro cs
  rw [← readDecimal?_isSome_iff, ← readDecimal?_isSome_iff]
  exact ⟨nofun, nofun⟩

theorem not_unsigned_hex {c : Char} (hc : c = 'x' ∨ c = 'X') (cs : List Char) :
    ¬ (Infinite ('0' :: c :: cs) ∨ Decimal ('0' :: c :: cs)) := by
  rw [← readUnsigned?_isSome_iff]
  rcases hc with rfl | rfl <;> simp [readUnsigned?, readDecimal?, readScale?]

theorem not_marked {P : List Char → Prop} {cs : List Char}
    (hlower : ∀ rest, cs ≠ '0' :: 'x' :: rest) (hupper : ∀ rest, cs ≠ '0' :: 'X' :: rest) : ¬ Marked P cs := by
  intro h
  cases h with
  | lower => exact hlower _ rfl
  | upper => exact hupper _ rfl

theorem marked_iff {P : List Char → Prop} {c : Char} (hc : c = 'x' ∨ c = 'X') (cs : List Char) :
    Marked P ('0' :: c :: cs) ↔ P cs := by
  constructor
  · intro h
    cases h with
    | lower h | upper h => exact h
  · intro h
    rcases hc with rfl | rfl
    · exact .lower h
    · exact .upper h

theorem readMarked_isSome_iff {c : Char} (hc : c = 'x' ∨ c = 'X') (cs : List Char) :
    (readHexWord? cs).isSome = true ↔
      Signed Infinite ('0' :: c :: cs) ∨ Marked HexWord ('0' :: c :: cs) ∨
        Signed Decimal ('0' :: c :: cs) ∨ InnerPlus ('0' :: c :: cs) := by
  have hplus : ∀ rest, '0' :: c :: cs ≠ '+' :: rest := by
    rintro _ ⟨⟩
  have hminus : ∀ rest, '0' :: c :: cs ≠ '-' :: rest := by
    rintro _ ⟨⟩
  have hunsigned := not_or.mp (not_unsigned_hex hc cs)
  rw [readHexWord?_isSome_iff, signed_iff hplus hminus, signed_iff hplus hminus, marked_iff hc,
    InnerPlus, marked_iff hc, or_iff_right hunsigned.1, or_iff_right hunsigned.2]

theorem readNumeral?_isSome_iff (cs : List Char) : (readNumeral? cs).isSome = true ↔
    Signed Infinite cs ∨ Marked HexWord cs ∨ Signed Decimal cs ∨ InnerPlus cs := by
  have hunmarked (P : List Char → Prop) (sign : Char) (hsign : sign ≠ '0') (rest : List Char) :
      ¬ Marked P (sign :: rest) :=
    not_marked (fun _ h => hsign (List.cons.inj h).1) fun _ h => hsign (List.cons.inj h).1
  unfold readNumeral?
  split
  · rw [Option.isSome_map, readUnsigned?_isSome_iff, infinite_signless.minus_iff,
      decimal_signless.minus_iff, InnerPlus, or_iff_right (hunmarked _ '-' (by decide) _),
      or_iff_left (hunmarked _ '-' (by decide) _)]
  · rw [readUnsigned?_isSome_iff, infinite_signless.plus_iff, decimal_signless.plus_iff, InnerPlus,
      or_iff_right (hunmarked _ '+' (by decide) _), or_iff_left (hunmarked _ '+' (by decide) _)]
  · exact readMarked_isSome_iff (.inl rfl) _
  · exact readMarked_isSome_iff (.inr rfl) _
  · rename_i hminus hplus hlower hupper
    rw [readUnsigned?_isSome_iff, signed_iff hplus hminus, signed_iff hplus hminus, InnerPlus,
      or_iff_right (not_marked hlower hupper), or_iff_left (not_marked hlower hupper)]

theorem Numeral.not_innerPlus {cs : List Char} (h : Numeral cs) : ¬ InnerPlus cs := by
  intro hplus
  obtain ⟨c, digits, rfl, hc⟩ :
      ∃ c digits, cs = '0' :: c :: '+' :: digits ∧ (c = 'x' ∨ c = 'X') := by
    cases hplus with
    | lower hword =>
      obtain ⟨digits, rfl, -⟩ := hword
      exact ⟨'x', digits, rfl, .inl rfl⟩
    | upper hword =>
      obtain ⟨digits, rfl, -⟩ := hword
      exact ⟨'X', digits, rfl, .inr rfl⟩
  have hunsigned := not_or.mp (not_unsigned_hex hc ('+' :: digits))
  rcases h with h | h | h | h
  · cases h
  · cases h with
    | bare h => exact hunsigned.1 h
  · exact not_hexWord_plus digits ((marked_iff hc _).mp h)
  · cases h with
    | bare h => exact hunsigned.2 h

end BlockScript.Number

namespace BlockScript.Value

open Number

theorem readNumber?_isSome_iff (s : String) : (readNumber? s).isSome = true ↔
    Numeral (Text.trimChars s.toList) ∨ InnerPlus (Text.trimChars s.toList) := by
  rw [readNumber?]
  split
  · rename_i h
    rw [h]
    exact iff_of_true rfl (.inl (.inl rfl))
  · rename_i h
    rw [readNumeral?_isSome_iff, Numeral, or_iff_right h, or_assoc, or_assoc]

/-- Text counts as a number just if, without the blanks around it, it is a numeral or else a
hexadecimal word with a plus sign inside. -/
theorem text_isSome_iff_numeral (s : String) :
    Text.Trimmed s.toList (Text.trimChars s.toList) ∧
      ((text s).number?.isSome = true ↔
        Numeral (Text.trimChars s.toList) ∨ InnerPlus (Text.trimChars s.toList)) ∧
      ¬ (Numeral (Text.trimChars s.toList) ∧ InnerPlus (Text.trimChars s.toList)) :=
  ⟨Text.trimmed_trimChars s.toList, readNumber?_isSome_iff s, fun h => h.1.not_innerPlus h.2⟩

/-- A sign inside a hexadecimal word goes unnoticed. -/
theorem inner_plus_counts : (text "0x+1A").number? = some 26 ∧
    ¬ Numeral (Text.trimChars "0x+1A".toList) := by
  have htrim : Text.trimChars "0x+1A".toList = '0' :: 'x' :: '+' :: ['1', 'A'] := by decide
  refine ⟨by decide +kernel, ?_⟩
  rw [htrim]
  have hword : HexWord ['1', 'A'] := (word?_isSome_iff _).mp (by decide +kernel)
  exact fun h => h.not_innerPlus (.lower ⟨_, rfl, hword⟩)

end BlockScript.Value

import Callout.Color
import Mathlib

namespace Callout

namespace Text

/-- A text without the white space around it. -/
structure IsTrimmed (text body : List Char) : Prop where
  around : ∃ front back, text = front ++ body ++ back ∧ (∀ c ∈ front, isBlank c = true) ∧
    ∀ c ∈ back, isBlank c = true
  first : ∀ c rest, body = c :: rest → isBlank c = false
  last : ∀ rest c, body = rest ++ [c] → isBlank c = false

theorem trim_isTrimmed (text : List Char) : IsTrimmed text (trim text) := by
  have htrim : trim text = (text.dropWhile isBlank).rdropWhile isBlank := rfl
  have hends := List.rdropWhile_append_rtakeWhile (p := isBlank) (l := text.dropWhile isBlank)
  refine ⟨⟨text.takeWhile isBlank, (text.dropWhile isBlank).rtakeWhile isBlank, ?_, ?_, ?_⟩, ?_, ?_⟩
  · rw [htrim, List.append_assoc, hends, List.takeWhile_append_dropWhile]
  · exact fun c hc => List.mem_takeWhile_imp hc
  · exact fun c hc => List.mem_rtakeWhile_imp hc
  · intro c rest hbody
    have hhead := List.head?_dropWhile_not isBlank text
    rw [← hends, ← htrim, hbody] at hhead
    exact hhead
  · intro rest c hbody
    have hlast := List.rdropWhile_last_not isBlank (text.dropWhile isBlank) (by
      rw [← htrim, hbody]
      exact List.concat_ne_nil c rest)
    simp only [← htrim, hbody, List.getLast_concat] at hlast
    exact Bool.eq_false_iff.mpr hlast

theorem trim_eq_of_isTrimmed {text body : List Char} (h : IsTrimmed text body) : trim text = body := by
  obtain ⟨front, back, rfl, hfront, hback⟩ := h.around
  have hkept : body.rdropWhile isBlank = body := by
    rw [List.rdropWhile_eq_self_iff]
    intro hne
    exact Bool.eq_false_iff.mp (h.last _ _ (List.dropLast_concat_getLast hne).symm)
  rw [trim, List.append_assoc, List.dropWhile_append_of_pos hfront]
  cases body with
  | nil => rw [List.nil_append, List.dropWhile_eq_nil_iff.mpr hback]; rfl
  | cons c rest =>
    rw [List.cons_append, List.dropWhile_cons_of_neg (Bool.eq_false_iff.mp (h.first c rest rfl)),
      ← List.cons_append, dropEndWhile, List.reverse_append,
      List.dropWhile_append_of_pos fun c hc => hback c (List.mem_reverse.mp hc)]
    exact hkept

theorem isTrimmed_iff {text body : List Char} : IsTrimmed text body ↔ body = trim text := by
  constructor
  · exact fun h => (trim_eq_of_isTrimmed h).symm
  · rintro rfl
    exact trim_isTrimmed text

end Text

namespace BasicColor

theorem mem_all (b : BasicColor) : b ∈ all := by
  cases b <;> decide

theorem name_inj {b other : BasicColor} (h : b.name.toList = other.name.toList) : b = other := by
  have hall : ∀ b ∈ all, ∀ other ∈ all, b.name.toList = other.name.toList → b = other := by decide
  exact hall b b.mem_all other other.mem_all h

end BasicColor

namespace Color

variable {text : List Char} {color : Color}

/-- The hexadecimal digits by their values, with small and with capital letters. -/
def hexDigits : List (List Char) :=
  ["0123456789abcdef".toList, "0123456789ABCDEF".toList]

/-- Whether a character is the hexadecimal digit of a value. -/
def IsHexDigit (c : Char) (value : Nat) : Prop :=
  ∃ digits ∈ hexDigits, digits[value]? = some c

instance (c : Char) (value : Nat) : Decidable (IsHexDigit c value) :=
  inferInstanceAs (Decidable (∃ digits ∈ hexDigits, digits[value]? = some c))

/-- Whether two characters are the hexadecimal digits of an amount. -/
def IsHexPair (high low : Char) (amount : Int) : Prop :=
  ∃ h l : Nat, IsHexDigit high h ∧ IsHexDigit low l ∧ amount = 16 * h + l

/-- Whether a text is `#` and two digits for each of the amounts of a color. -/
inductive IsHex : List Char → Color → Prop
  | amounts {r₁ r₀ g₁ g₀ b₁ b₀ : Char} {r g b : Int} (red : IsHexPair r₁ r₀ r)
    (green : IsHexPair g₁ g₀ g) (blue : IsHexPair b₁ b₀ b) :
    IsHex ['#', r₁, r₀, g₁, g₀, b₁, b₀] (.rgb r g b)

/-- A character with `_` for `-`. -/
def underscored (c : Char) : Char :=
  if c = '-' then '_' else c

/-- A character as a letter of a name: small, and `_` for `-`. -/
def nameLetter (c : Char) : Char :=
  underscored c.toLower

/-- A character as a letter of the form in which names are compared. -/
def keyLetter (c : Char) : Char :=
  underscored c.toUpper

/-- Whether a text is the name of a basic color, in any case and with `-` for `_`. -/
def IsNamed (text : List Char) (color : Color) : Prop :=
  ∃ b : BasicColor, color = basic b ∧ text.map nameLetter = b.name.toList

/-- Whether a text stands for a color. -/
def Denotes (text : List Char) (color : Color) : Prop :=
  IsHex text color ∨ IsNamed text color

/-- A text with `i` for every `ı`. -/
def dotted (text : List Char) : List Char :=
  text.map fun c => if c = 'ı' then 'i' else c

theorem toNat_lt_of_hexDigit? {c : Char} {value : Nat} (h : hexDigit? c = some value) :
    c.toNat < 128 := by
  have hle : c ≤ 'f' := by
    unfold hexDigit? at h
    split at h
    next hc => exact le_trans hc.2 (by decide)
    next =>
      split at h
      next hc => exact hc.2
      next =>
        split at h
        next hc => exact le_trans hc.2 (by decide)
        next => cases h
  exact Nat.lt_of_le_of_lt (show c.toNat ≤ 'f'.toNat from hle) (by decide)

theorem hexDigit?_eq_some_iff {c : Char} {value : Nat} :
    hexDigit? c = some value ↔ IsHexDigit c value := by
  constructor
  · intro h
    have hascii : ∀ n < 128, ∀ v ∈ hexDigit? (Char.ofNat n), IsHexDigit (Char.ofNat n) v := by decide
    have hchar := hascii c.toNat (toNat_lt_of_hexDigit? h) value
    rw [Char.ofNat_toNat] at hchar
    exact hchar h
  · rintro ⟨digits, hdigits, hvalue⟩
    have hread : ∀ digits ∈ hexDigits, ∀ d ∈ digits.zipIdx, hexDigit? d.1 = some d.2 := by decide
    exact hread digits hdigits (c, value) (List.mem_zipIdx_iff_getElem?.mpr hvalue)

theorem hexPair?_eq_some_iff {high low : Char} {amount : Int} :
    hexPair? high low = some amount ↔ IsHexPair high low amount := by
  simp only [hexPair?, Option.bind_eq_bind, Option.bind_eq_some_iff, hexDigit?_eq_some_iff,
    Option.pure_def, Option.some.injEq, IsHexPair]
  constructor
  · rintro ⟨h, hh, l, hl, rfl⟩
    exact ⟨h, l, hh, hl, rfl⟩
  · rintro ⟨h, l, hh, hl, rfl⟩
    exact ⟨h, hh, l, hl, rfl⟩

theorem hexColor?_eq_some_iff : hexColor? text = some color ↔ IsHex text color := by
  constructor
  · intro h
    unfold hexColor? at h
    split at h
    next r₁ r₀ g₁ g₀ b₁ b₀ =>
      obtain ⟨r, hr, h⟩ := Option.bind_eq_some_iff.mp h
      obtain ⟨g, hg, h⟩ := Option.bind_eq_some_iff.mp h
      obtain ⟨b, hb, h⟩ := Option.bind_eq_some_iff.mp h
      cases h
      exact .amounts (hexPair?_eq_some_iff.mp hr) (hexPair?_eq_some_iff.mp hg)
        (hexPair?_eq_some_iff.mp hb)
    next => cases h
  · rintro ⟨hr, hg, hb⟩
    rw [hexColor?, hexPair?_eq_some_iff.mpr hr, hexPair?_eq_some_iff.mpr hg,
      hexPair?_eq_some_iff.mpr hb]
    rfl

theorem underscored_underscored {f : Char → Char} (h : underscored (f '_') = underscored (f '-'))
    (c : Char) : underscored (f (underscored c)) = underscored (f c) := by
  by_cases hdash : c = '-'
  · subst hdash
    exact h
  · rw [underscored.eq_def c, if_neg hdash]

theorem nameLetter_keyLetter (c : Char) : nameLetter (keyLetter c) = nameLetter c := by
  rw [nameLetter, keyLetter, underscored_underscored rfl, Char.toLower_toUpper_eq_toLower, nameLetter]

theorem keyLetter_nameLetter (c : Char) : keyLetter (nameLetter c) = keyLetter c := by
  rw [keyLetter, nameLetter, underscored_underscored rfl, Char.toUpper_toLower_eq_toUpper, keyLetter]

/-- Small letters and capital ones tell the same characters apart. -/
theorem map_keyLetter_eq_iff {text other : List Char} :
    text.map keyLetter = other.map keyLetter ↔ text.map nameLetter = other.map nameLetter := by
  constructor
  · intro h
    have hnames := congrArg (List.map nameLetter) h
    simpa only [List.map_map, Function.comp_def, nameLetter_keyLetter] using hnames
  · intro h
    have hkeys := congrArg (List.map keyLetter) h
    simpa only [List.map_map, Function.comp_def, keyLetter_nameLetter] using hkeys

/-- Whether `ı` is the only letter of a text outside ASCII whose upper case is in ASCII. -/
def IsPlain (text : List Char) : Prop :=
  ∀ p ∈ foldedLetters, p.1 ∈ text → p.1 = 'ı'

theorem upperCase_of_not_folded {c : Char} (h : ∀ p ∈ foldedLetters, p.1 ≠ c) :
    upperCase c = [c.toUpper] := by
  rw [upperCase, List.lookup_eq_none_iff.mpr, Option.getD_none]
  intro p hp
  exact bne_iff_ne.mpr (h p hp).symm

theorem upperCase_of_isPlain (h : IsPlain text) {c : Char} (hc : c ∈ text) :
    upperCase c = [(if c = 'ı' then 'i' else c).toUpper] := by
  by_cases hdotless : c = 'ı'
  · subst hdotless
    rfl
  · rw [if_neg hdotless]
    apply upperCase_of_not_folded
    rintro p hp rfl
    exact hdotless (h p hp hc)

theorem nameKey_of_isPlain (h : IsPlain text) : nameKey text = (dotted text).map keyLetter := by
  have hflat : text.flatMap upperCase = (dotted text).map Char.toUpper := by
    rw [List.flatMap_congr fun c hc => upperCase_of_isPlain h hc, dotted, List.map_map]
    exact List.map_eq_flatMap.symm
  rw [nameKey, hflat, List.map_map]
  rfl

theorem nameKey_name (b : BasicColor) : nameKey b.name.toList = b.name.toList.map keyLetter := by
  cases b <;> rfl

theorem map_nameLetter_name (b : BasicColor) : b.name.toList.map nameLetter = b.name.toList := by
  cases b <;> rfl

/-- The upper case of a letter outside ASCII other than `ı` is no part of a name in upper case. -/
theorem isPlain_of_nameKey {b : BasicColor} (h : nameKey b.name.toList = nameKey text) :
    IsPlain text := by
  have hnone : ∀ p ∈ foldedLetters, p.1 ≠ 'ı' →
      ¬(upperCase p.1).map underscored <:+: nameKey b.name.toList := by
    cases b <;> decide
  intro p hp hmem
  by_contra hdotless
  apply hnone p hp hdotless
  rw [h]
  exact (List.infix_flatMap_of_mem hmem upperCase).map underscored

/-- A letter outside ASCII is no letter of a name. -/
theorem isPlain_of_name {b : BasicColor} (h : (dotted text).map nameLetter = b.name.toList) :
    IsPlain text := by
  have hnone : ∀ p ∈ foldedLetters, p.1 ≠ 'ı' → nameLetter p.1 ∉ b.name.toList := by
    cases b <;> decide
  intro p hp hmem
  by_contra hdotless
  apply hnone p hp hdotless
  rw [← h]
  refine List.mem_map_of_mem (List.mem_map.mpr ⟨p.1, hmem, ?_⟩)
  rw [if_neg hdotless]

/-- Both sides make a text plain, and a plain text is compared letter by letter. -/
theorem nameKey_eq_iff {b : BasicColor} :
    nameKey b.name.toList = nameKey text ↔ (dotted text).map nameLetter = b.name.toList := by
  constructor
  · intro h
    have hkeys := h
    rw [nameKey_name, nameKey_of_isPlain (isPlain_of_nameKey h), map_keyLetter_eq_iff,
      map_nameLetter_name] at hkeys
    exact hkeys.symm
  · intro h
    rw [nameKey_name, nameKey_of_isPlain (isPlain_of_name h), map_keyLetter_eq_iff,
      map_nameLetter_name]
    exact h.symm

theorem named?_eq_some_iff : named? text = some color ↔ IsNamed (dotted text) color := by
  have hfound : ∀ {b}, (BasicColor.all.find? fun b => nameKey b.name.toList = nameKey text) = some b →
      (dotted text).map nameLetter = b.name.toList := by
    intro b h
    exact nameKey_eq_iff.mp (by simpa using List.find?_some h)
  rw [named?, Option.map_eq_some_iff]
  constructor
  · rintro ⟨b, hb, rfl⟩
    exact ⟨b, rfl, hfound hb⟩
  · rintro ⟨b, rfl, hname⟩
    have hsome : (BasicColor.all.find? fun b => nameKey b.name.toList = nameKey text).isSome = true :=
      List.find?_isSome.mpr ⟨b, b.mem_all, decide_eq_true (nameKey_eq_iff.mpr hname)⟩
    obtain ⟨other, hother⟩ := Option.isSome_iff_exists.mp hsome
    rw [BasicColor.name_inj ((hfound hother).symm.trans hname)] at hother
    exact ⟨b, hother, rfl⟩

theorem dotted_of_not_mem (h : 'ı' ∉ text) : dotted text = text := by
  rw [dotted, List.map_congr_left, List.map_id']
  intro c hc
  rw [if_neg]
  rintro rfl
  exact h hc

/-- Hexadecimal digits are of ASCII. -/
theorem not_mem_of_isHex (h : IsHex text color) : 'ı' ∉ text := by
  have hdigit : ∀ value, ¬IsHexDigit 'ı' value := by
    intro value hvalue
    have hread := hexDigit?_eq_some_iff.mpr hvalue
    cases hread
  have hpair : ∀ {high low amount}, IsHexPair high low amount → 'ı' ≠ high ∧ 'ı' ≠ low := by
    rintro high low amount ⟨h, l, hh, hl, _⟩
    exact ⟨by rintro rfl; exact hdigit h hh, by rintro rfl; exact hdigit l hl⟩
  obtain ⟨hr, hg, hb⟩ := h
  simp [hpair hr, hpair hg, hpair hb]

theorem not_mem_of_isNamed (h : IsNamed text color) : 'ı' ∉ text ∧ '#' ∉ text := by
  obtain ⟨b, _, hname⟩ := h
  have hletters : nameLetter 'ı' ∉ b.name.toList ∧ nameLetter '#' ∉ b.name.toList := by
    cases b <;> decide
  rw [← hname] at hletters
  exact ⟨fun h => hletters.1 (List.mem_map_of_mem h), fun h => hletters.2 (List.mem_map_of_mem h)⟩

/-- Whether a text is the name of a basic color with `ı` for some `i`. -/
def IsDotless (text : List Char) (color : Color) : Prop :=
  'ı' ∈ text ∧ IsNamed (dotted text) color

theorem isNamed_dotted_iff :
    IsNamed (dotted text) color ↔ IsNamed text color ∨ IsDotless text color := by
  by_cases hmem : 'ı' ∈ text
  · have hnone : ¬IsNamed text color := fun h => (not_mem_of_isNamed h).1 hmem
    simp only [IsDotless, hmem, hnone, true_and, false_or]
  · simp only [IsDotless, dotted_of_not_mem hmem, hmem, false_and, or_false]

theorem not_denotes_of_isDotless {other : Color} (h : IsDotless text color) :
    ¬Denotes text other := by
  rintro (hhex | hnamed)
  · exact not_mem_of_isHex hhex h.1
  · exact (not_mem_of_isNamed hnamed).1 h.1

/-- No text is read both as amounts and as a name: a name has no `#`. -/
theorem not_isNamed_of_isHex {other : Color} (h : IsHex text color) : ¬IsNamed (dotted text) other := by
  rw [dotted_of_not_mem (not_mem_of_isHex h)]
  intro hnamed
  apply (not_mem_of_isNamed hnamed).2
  cases h
  exact List.mem_cons_self

theorem read_eq_ok_iff {text : String} : read text = .ok color ↔
    Denotes (Text.trim text.toList) color ∨ IsDotless (Text.trim text.toList) color := by
  have hread : read text = .ok color ↔
      (hexColor? (Text.trim text.toList) <|> named? (Text.trim text.toList)) = some color := by
    rw [read]
    split
    next found h => rw [h, Except.ok.injEq, Option.some_inj]
    next h => simp [h]
  have hapart : IsNamed (dotted (Text.trim text.toList)) color →
      hexColor? (Text.trim text.toList) = none := by
    intro hnamed
    by_contra hsome
    obtain ⟨found, hfound⟩ := Option.ne_none_iff_exists'.mp hsome
    exact not_isNamed_of_isHex (hexColor?_eq_some_iff.mp hfound) hnamed
  rw [hread, Option.orElse_eq_some, hexColor?_eq_some_iff, named?_eq_some_iff, Denotes, or_assoc,
    ← isNamed_dotted_iff, and_iff_right_of_imp hapart]

theorem read_eq_error_iff {text : String} {e : Error} : read text = .error e ↔
    e = .unknownColor text ∧ ∀ color, read text ≠ .ok color := by
  rw [read]
  split
  next found h => simp
  next h => simp [eq_comm]

end Color

open Color

/-- A text without the white space around it is read as the color that it stands for, and a text that
stands for none is refused. Only a name with `ı` for some `i` is read as well, although it stands for no
color. -/
theorem color_of_text (text : String) :
    ∃ body, (∀ other, Text.IsTrimmed text.toList other ↔ other = body) ∧
      (∀ color, Color.read text = .ok color ↔ Denotes body color ∨ IsDotless body color) ∧
      (∀ e, Color.read text = .error e ↔ e = .unknownColor text ∧
        ∀ color, ¬Denotes body color ∧ ¬IsDotless body color) ∧
      ∀ color, IsDotless body color → ∀ other, ¬Denotes body other := by
  refine ⟨Text.trim text.toList, fun other => Text.isTrimmed_iff, fun color => read_eq_ok_iff,
    fun e => ?_, fun color h other => not_denotes_of_isDotless h⟩
  simp only [read_eq_error_iff, Ne, read_eq_ok_iff, not_or]

/-- The name `white` with an `ı`. -/
def dotlessWhite : String := "whıte"

theorem dotlessWhite_read : Color.read dotlessWhite = .ok (.basic .white) ∧
    Text.IsTrimmed dotlessWhite.toList dotlessWhite.toList ∧
    ∀ color, ¬Denotes dotlessWhite.toList color := by
  have hdotless : IsDotless dotlessWhite.toList (.basic .white) := ⟨by decide, .white, rfl, by decide⟩
  have htrim : Text.trim dotlessWhite.toList = dotlessWhite.toList := by decide
  exact ⟨by decide, Text.isTrimmed_iff.mpr htrim.symm,
    fun color => not_denotes_of_isDotless hdotless⟩

end Callout

import Callout.Proofs.ByteBoundary
import Mathlib.Algebra.GroupWithZero.Nat
import Mathlib.Order.Bounds.Basic

namespace Callout

namespace Utf8

/-- A sequence of one to four bytes by its bit patterns, with the code in its payload bits. -/
inductive Pattern : List UInt8 → Nat → Prop
  | one {a : UInt8} (ha : a.toNat / 128 = 0b0) : Pattern [a] a.toNat
  | two {a b : UInt8} (ha : a.toNat / 32 = 0b110) (hb : b.toNat / 64 = 0b10) :
    Pattern [a, b] (a.toNat % 32 * 64 + b.toNat % 64)
  | three {a b c : UInt8} (ha : a.toNat / 16 = 0b1110) (hb : b.toNat / 64 = 0b10)
    (hc : c.toNat / 64 = 0b10) :
    Pattern [a, b, c] (a.toNat % 16 * 4096 + b.toNat % 64 * 64 + c.toNat % 64)
  | four {a b c d : UInt8} (ha : a.toNat / 8 = 0b11110) (hb : b.toNat / 64 = 0b10)
    (hc : c.toNat / 64 = 0b10) (hd : d.toNat / 64 = 0b10) :
    Pattern [a, b, c, d]
      (a.toNat % 8 * 262144 + b.toNat % 64 * 4096 + c.toNat % 64 * 64 + d.toNat % 64)

/-- The least code that needs a sequence of a length. A lesser one makes an overlong form. -/
def leastCode : (length : Nat) → Nat
  | 0 | 1 => 0
  | 2 => 0x80
  | 3 => 0x800
  | _ => 0x10000

/-- The codes that are kept for pairs and stand for no character. -/
def IsSurrogate (code : Nat) : Prop :=
  0xd800 ≤ code ∧ code ≤ 0xdfff

structure IsSequence (bytes : List UInt8) (code : Nat) : Prop where
  pattern : Pattern bytes code
  shortest : leastCode bytes.length ≤ code
  not_surrogate : ¬IsSurrogate code
  le_last : code ≤ 0x10ffff

/-- Bytes that spell codes, with one sequence for each. -/
inductive Spells : List UInt8 → List Nat → Prop
  | nil : Spells [] []
  | cons {sequence bytes : List UInt8} {code : Nat} {codes : List Nat} (first : IsSequence sequence code)
    (rest : Spells bytes codes) : Spells (sequence ++ bytes) (code :: codes)

def IsWellFormed (bytes : List UInt8) : Prop :=
  ∃ codes, Spells bytes codes

/-- The number of bytes that a code takes. -/
def codeWidth (code : Nat) : Nat :=
  if code < 0x80 then 1 else if code < 0x800 then 2 else if code < 0x10000 then 3 else 4

theorem utf8Size_eq_codeWidth (c : Char) : c.utf8Size = codeWidth c.toNat := by
  have hle : ∀ n : UInt32, c.val ≤ n ↔ c.toNat < n.toNat + 1 := fun n => Nat.lt_succ_iff.symm
  simp only [Char.utf8Size, hle]
  rfl

theorem byteWidth_eq_sum (text : List Char) :
    byteWidth text = ((text.map Char.toNat).map codeWidth).sum := by
  induction text with
  | nil => rfl
  | cons c text ih => rw [byteWidth_cons, ih, utf8Size_eq_codeWidth, List.map_cons, List.map_cons, List.sum_cons]

theorem isSequence_encode (c : Char) : IsSequence (String.utf8EncodeChar c) c.toNat := by
  have valid := toNat_valid c
  have hscalar : ¬IsSurrogate c.toNat := by unfold IsSurrogate; omega
  have hlast : c.toNat ≤ 0x10ffff := by omega
  by_cases h1 : c.toNat < 0x80
  · obtain ⟨a, he, ha⟩ := encoded_one h1
    have hpattern : Pattern [a] a.toNat := .one (by omega)
    rw [ha] at hpattern
    exact ⟨he ▸ hpattern, by rw [he]; exact Nat.zero_le _, hscalar, hlast⟩
  by_cases h2 : c.toNat < 0x800
  · obtain ⟨a, b, he, ha, hb⟩ := encoded_two (by omega) h2
    have hpattern : Pattern [a, b] (a.toNat % 32 * 64 + b.toNat % 64) := .two (by omega) (by omega)
    rw [show a.toNat % 32 * 64 + b.toNat % 64 = c.toNat by omega] at hpattern
    exact ⟨he ▸ hpattern, by rw [he]; exact Nat.le_of_not_lt h1, hscalar, hlast⟩
  by_cases h3 : c.toNat < 0x10000
  · obtain ⟨a, b, d, he, ha, hb, hd⟩ := encoded_three (by omega) h3
    have hpattern : Pattern [a, b, d] (a.toNat % 16 * 4096 + b.toNat % 64 * 64 + d.toNat % 64) :=
      .three (by omega) (by omega) (by omega)
    rw [show a.toNat % 16 * 4096 + b.toNat % 64 * 64 + d.toNat % 64 = c.toNat by omega] at hpattern
    exact ⟨he ▸ hpattern, by rw [he]; exact Nat.le_of_not_lt h2, hscalar, hlast⟩
  · obtain ⟨a, b, d, e, he, ha, hb, hd, hlow⟩ := encoded_four (c := c) (by omega) (by omega)
    have hpattern : Pattern [a, b, d, e]
        (a.toNat % 8 * 262144 + b.toNat % 64 * 4096 + d.toNat % 64 * 64 + e.toNat % 64) :=
      .four (by omega) (by omega) (by omega) (by omega)
    rw [show a.toNat % 8 * 262144 + b.toNat % 64 * 4096 + d.toNat % 64 * 64 + e.toNat % 64 = c.toNat by
      omega] at hpattern
    exact ⟨he ▸ hpattern, by rw [he]; exact Nat.le_of_not_lt h3, hscalar, hlast⟩

theorem exists_char {code : Nat} (h : code.isValidChar) : ∃ c : Char, c.toNat = code :=
  ⟨Char.ofNatAux code h, rfl⟩

theorem IsSequence.isValidChar {bytes : List UInt8} {code : Nat} (h : IsSequence bytes code) :
    code.isValidChar := by
  have hscalar := h.not_surrogate
  have hlast := h.le_last
  unfold IsSurrogate at hscalar
  unfold Nat.isValidChar
  omega

/-- The pattern and the code leave no choice for any byte. -/
theorem IsSequence.eq_encode {bytes : List UInt8} {c : Char} (h : IsSequence bytes c.toNat) :
    String.utf8EncodeChar c = bytes := by
  obtain ⟨hpattern, hshort, _, hlast⟩ := h
  generalize hcode : c.toNat = code at hpattern
  rw [hcode] at hshort hlast
  cases hpattern with
  | @one a ha =>
    obtain ⟨a', he, ha'⟩ := encoded_one (c := c) (by omega)
    rw [he, UInt8.toNat_inj.mp (ha'.trans hcode)]
  | @two a b ha hb =>
    change 0x80 ≤ _ at hshort
    obtain ⟨a', b', he, ha', hb'⟩ := encoded_two (c := c) (by omega) (by omega)
    rw [he, UInt8.toNat_inj.mp (show a'.toNat = a.toNat by omega),
      UInt8.toNat_inj.mp (show b'.toNat = b.toNat by omega)]
  | @three a b d ha hb hd =>
    change 0x800 ≤ _ at hshort
    obtain ⟨a', b', d', he, ha', hb', hd'⟩ := encoded_three (c := c) (by omega) (by omega)
    rw [he, UInt8.toNat_inj.mp (show a'.toNat = a.toNat by omega),
      UInt8.toNat_inj.mp (show b'.toNat = b.toNat by omega),
      UInt8.toNat_inj.mp (show d'.toNat = d.toNat by omega)]
  | @four a b d e ha hb hd he =>
    change 0x10000 ≤ _ at hshort
    obtain ⟨a', b', d', e', heq, ha', hb', hd', he'⟩ := encoded_four (c := c) (by omega) (by omega)
    rw [heq, UInt8.toNat_inj.mp (show a'.toNat = a.toNat by omega),
      UInt8.toNat_inj.mp (show b'.toNat = b.toNat by omega),
      UInt8.toNat_inj.mp (show d'.toNat = d.toNat by omega),
      UInt8.toNat_inj.mp (show e'.toNat = e.toNat by omega)]

theorem isSequence_iff {bytes : List UInt8} {code : Nat} :
    IsSequence bytes code ↔ ∃ c : Char, c.toNat = code ∧ String.utf8EncodeChar c = bytes := by
  constructor
  · intro h
    obtain ⟨c, rfl⟩ := exists_char h.isValidChar
    exact ⟨c, rfl, h.eq_encode⟩
  · rintro ⟨c, rfl, rfl⟩
    exact isSequence_encode c

theorem spells_encode (text : List Char) : Spells (encode text) (text.map Char.toNat) := by
  induction text with
  | nil => exact .nil
  | cons c text ih => exact .cons (isSequence_encode c) ih

theorem exists_text_of_spells {bytes : List UInt8} {codes : List Nat} (h : Spells bytes codes) :
    ∃ text : List Char, codes = text.map Char.toNat ∧ bytes = encode text := by
  induction h with
  | nil => exact ⟨[], rfl, rfl⟩
  | cons first _ ih =>
    obtain ⟨c, rfl, rfl⟩ := isSequence_iff.mp first
    obtain ⟨text, rfl, rfl⟩ := ih
    exact ⟨c :: text, rfl, rfl⟩

theorem isWellFormed_iff {bytes : List UInt8} : IsWellFormed bytes ↔ ∃ text, bytes = encode text := by
  constructor
  · rintro ⟨codes, h⟩
    obtain ⟨text, _, hbytes⟩ := exists_text_of_spells h
    exact ⟨text, hbytes⟩
  · rintro ⟨text, rfl⟩
    exact ⟨_, spells_encode text⟩

/-- The table of first bytes by the length of their sequences. Behind four of them the second byte is narrowed
down. -/
theorem followers_eq_some {first : UInt8} {bounds : List (UInt8 × UInt8)}
    (h : followers first = some bounds) :
    (first.toNat < 0x80 ∧ bounds = []) ∨
    (0xc2 ≤ first.toNat ∧ first.toNat < 0xe0 ∧ bounds = [(0x80, 0xbf)]) ∨
    (0xe0 ≤ first.toNat ∧ first.toNat < 0xf0 ∧ ∃ low high, bounds = [(low, high), (0x80, 0xbf)] ∧
      0x80 ≤ low.toNat ∧ high.toNat ≤ 0xbf ∧ (first.toNat = 0xe0 → 0xa0 ≤ low.toNat) ∧
      (first.toNat = 0xed → high.toNat ≤ 0x9f)) ∨
    (0xf0 ≤ first.toNat ∧ first.toNat ≤ 0xf4 ∧ ∃ low high,
      bounds = [(low, high), (0x80, 0xbf), (0x80, 0xbf)] ∧ 0x80 ≤ low.toNat ∧ high.toNat ≤ 0xbf ∧
      (first.toNat = 0xf0 → 0x90 ≤ low.toNat) ∧ (first.toNat = 0xf4 → high.toNat ≤ 0x8f)) := by
  rw [followers_eq_of_toNat] at h
  split at h
  next h1 => exact .inl ⟨h1, (Option.some.inj h).symm⟩
  split at h
  next => cases h
  split at h
  next h2 => exact .inr (.inl ⟨by omega, h2, (Option.some.inj h).symm⟩)
  split at h
  next he0 =>
    exact .inr (.inr (.inl ⟨by omega, by omega, _, _, (Option.some.inj h).symm, by decide, by decide,
      fun _ => by decide, fun hed => by omega⟩))
  split at h
  next hed =>
    exact .inr (.inr (.inl ⟨by omega, by omega, _, _, (Option.some.inj h).symm, by decide, by decide,
      fun he0 => by omega, fun _ => by decide⟩))
  split at h
  next h3 =>
    exact .inr (.inr (.inl ⟨by omega, by omega, _, _, (Option.some.inj h).symm, by decide, by decide,
      fun he0 => by omega, fun hed => by omega⟩))
  split at h
  next hf0 =>
    exact .inr (.inr (.inr ⟨by omega, by omega, _, _, (Option.some.inj h).symm, by decide, by decide,
      fun _ => by decide, fun hf4 => by omega⟩))
  split at h
  next h4 =>
    exact .inr (.inr (.inr ⟨by omega, by omega, _, _, (Option.some.inj h).symm, by decide, by decide,
      fun hf0 => by omega, fun hf4 => by omega⟩))
  split at h
  next hf4 =>
    exact .inr (.inr (.inr ⟨by omega, by omega, _, _, (Option.some.inj h).symm, by decide, by decide,
      fun hf0 => by omega, fun _ => by decide⟩))
  next => cases h

theorem fits_any {b : UInt8} (h : Fits (0x80, 0xbf) b) : b.toNat / 64 = 0b10 := by
  rw [fits_iff] at h
  simp only [UInt8.reduceToNat] at h
  omega

/-- A first byte and the bytes that fit behind it make a sequence. -/
theorem isSequence_of_fits {first : UInt8} {tail : List UInt8} {bounds : List (UInt8 × UInt8)}
    (hf : followers first = some bounds) (hfits : List.Forall₂ Fits bounds tail) :
    ∃ code, IsSequence (first :: tail) code := by
  obtain ⟨h1, rfl⟩ | ⟨hlow, hhigh, rfl⟩ | ⟨hlow, hhigh, low, high, rfl, h80, hbf, he0, hed⟩ |
    ⟨hlow, hhigh, low, high, rfl, h80, hbf, hf0, hf4⟩ := followers_eq_some hf
  · cases hfits
    refine ⟨_, .one (by omega), Nat.zero_le _, ?_, by omega⟩
    unfold IsSurrogate
    omega
  · obtain _ | ⟨hb, _ | _⟩ := hfits
    have hb := fits_any hb
    refine ⟨_, .two (by omega) hb, ?_, ?_, by omega⟩
    · change 0x80 ≤ _
      omega
    · unfold IsSurrogate
      omega
  · obtain _ | ⟨hb, _ | ⟨hd, _ | _⟩⟩ := hfits
    have hb := fits_iff.mp hb
    have hd := fits_any hd
    refine ⟨_, .three (by omega) (by omega) hd, ?_, ?_, by omega⟩
    · change 0x800 ≤ _
      omega
    · unfold IsSurrogate
      omega
  · obtain _ | ⟨hb, _ | ⟨hd, _ | ⟨he, _ | _⟩⟩⟩ := hfits
    have hb := fits_iff.mp hb
    have hd := fits_any hd
    have he := fits_any he
    refine ⟨_, .four (by omega) (by omega) hd he, ?_, ?_, by omega⟩
    · change 0x10000 ≤ _
      omega
    · unfold IsSurrogate
      omega

theorem exists_char_of_fits {first : UInt8} {tail : List UInt8} {bounds : List (UInt8 × UInt8)}
    (hf : followers first = some bounds) (hfits : List.Forall₂ Fits bounds tail) :
    ∃ c, String.utf8EncodeChar c = first :: tail := by
  obtain ⟨code, hsequence⟩ := isSequence_of_fits hf hfits
  obtain ⟨c, _, hc⟩ := isSequence_iff.mp hsequence
  exact ⟨c, hc⟩

/-- The machine gets the bytes that it awaits, or it stops and names the place where the sequence began. -/
theorem decodeFrom_awaited_cases {awaited : List (UInt8 × UInt8)} (hne : awaited ≠ []) (position : Nat)
    {begun : List UInt8} (hbegun : begun ≠ []) (bytes : List UInt8) :
    (∃ tail rest, bytes = tail ++ rest ∧ List.Forall₂ Fits awaited tail) ∨
      ∃ fault, decodeFrom position begun awaited bytes = .error fault ∧ fault.position = position := by
  induction bytes generalizing awaited begun with
  | nil => exact .inr ⟨⟨position, begun, .truncated⟩, by simp [decodeFrom, hbegun], rfl⟩
  | cons b bytes ih =>
    obtain ⟨bound, bounds, rfl⟩ := List.exists_cons_of_ne_nil hne
    by_cases hb : Fits bound b
    · by_cases hbounds : bounds = []
      · subst hbounds
        exact .inl ⟨[b], bytes, rfl, .cons hb .nil⟩
      · have hstep : decodeFrom position begun (bound :: bounds) (b :: bytes) =
            decodeFrom position (begun ++ [b]) bounds bytes := by
          rw [decodeFrom, if_pos (And.intro hb.1 hb.2), if_neg (by simpa using hbounds)]
        rcases ih hbounds (show begun ++ [b] ≠ [] by simp) with ⟨tail, rest, rfl, hfits⟩ | hfault
        · exact .inl ⟨b :: tail, rest, rfl, .cons hb hfits⟩
        · exact .inr (hstep ▸ hfault)
    · exact .inr ⟨⟨position, begun, .continuation⟩, by rw [decodeFrom]; exact if_neg hb, rfl⟩

theorem decodeFrom_cases (position : Nat) {bytes : List UInt8} (hne : bytes ≠ []) :
    (∃ c rest, bytes = String.utf8EncodeChar c ++ rest) ∨
      ∃ fault, decodeFrom position [] [] bytes = .error fault ∧ fault.position = position := by
  obtain ⟨first, bytes, rfl⟩ := List.exists_cons_of_ne_nil hne
  cases hf : followers first with
  | none => exact .inr ⟨⟨position, [first], .startByte⟩, by simp only [decodeFrom, hf], rfl⟩
  | some bounds =>
    by_cases hbounds : bounds = []
    · subst hbounds
      obtain ⟨c, hc⟩ := exists_char_of_fits hf .nil
      exact .inl ⟨c, bytes, by rw [hc]; rfl⟩
    · have hstep : decodeFrom position [] [] (first :: bytes) =
          decodeFrom position [first] bounds bytes := by
        obtain ⟨bound, bounds, rfl⟩ := List.exists_cons_of_ne_nil hbounds
        rw [decodeFrom, hf]
      rcases decodeFrom_awaited_cases hbounds position (show [first] ≠ [] by simp) bytes with
        ⟨tail, rest, rfl, hfits⟩ | hfault
      · obtain ⟨c, hc⟩ := exists_char_of_fits hf hfits
        exact .inl ⟨c, rest, by rw [hc]; rfl⟩
      · exact .inr (hstep ▸ hfault)

/-- The machine reads characters for as long as there are any. -/
theorem decodeFrom_split (position : Nat) (bytes : List UInt8) : ∃ text,
    (decodeFrom position [] [] bytes = .ok text ∧ bytes = encode text) ∨
      ∃ rest fault, bytes = encode text ++ rest ∧ decodeFrom position [] [] bytes = .error fault ∧
        fault.position = position + byteWidth text := by
  induction hn : bytes.length using Nat.strong_induction_on generalizing position bytes with
  | _ n ih =>
    by_cases hne : bytes = []
    · subst hne
      exact ⟨[], .inl ⟨by simp [decodeFrom], rfl⟩⟩
    rcases decodeFrom_cases position hne with ⟨c, bytes, rfl⟩ | ⟨fault, hfault, hposition⟩
    · have hlt : bytes.length < n := by
        have := c.utf8Size_pos
        rw [List.length_append, String.length_utf8EncodeChar] at hn
        omega
      rw [decodeFrom_char]
      obtain ⟨text, ⟨hok, rfl⟩ | ⟨rest, fault, rfl, hfault, hposition⟩⟩ :=
        ih _ hlt (position + c.utf8Size) bytes rfl
      · exact ⟨c :: text, .inl ⟨by rw [hok]; rfl, rfl⟩⟩
      · refine ⟨c :: text, .inr ⟨rest, fault, ?_, by rw [hfault]; rfl, ?_⟩⟩
        · rw [encode_cons, List.append_assoc]
        · rw [hposition, byteWidth_cons, Nat.add_assoc]
    · exact ⟨[], .inr ⟨bytes, fault, rfl, hfault, hposition⟩⟩

theorem decode_eq_ok_iff {bytes : List UInt8} {text : List Char} :
    decode bytes = .ok text ↔ bytes = encode text := by
  constructor
  · intro h
    obtain ⟨text', ⟨hok, rfl⟩ | ⟨_, _, _, hfault, _⟩⟩ := decodeFrom_split 0 bytes
    · rw [Except.ok.inj (h.symm.trans hok)]
    · cases h.symm.trans hfault
  · rintro rfl
    exact decode_encode text

theorem le_position_of_decodeFrom {position : Nat} {bytes : List UInt8} {fault : Fault}
    (h : decodeFrom position [] [] bytes = .error fault) : position ≤ fault.position := by
  obtain ⟨text, ⟨hok, _⟩ | ⟨_, fault', _, hfault, hposition⟩⟩ := decodeFrom_split position bytes
  · cases h.symm.trans hok
  · rw [Except.error.inj (h.symm.trans hfault), hposition]
    exact Nat.le_add_right _ _

/-- Bytes that are refused are well formed up to the place that is named, and no further. -/
theorem fault_isGreatest {bytes : List UInt8} {fault : Fault} (h : decode bytes = .error fault) :
    IsGreatest {n | n ≤ bytes.length ∧ IsWellFormed (bytes.take n)} fault.position := by
  constructor
  · obtain ⟨text, ⟨hok, _⟩ | ⟨rest, fault', rfl, hfault, hposition⟩⟩ := decodeFrom_split 0 bytes
    · cases h.symm.trans hok
    · rw [Except.error.inj (h.symm.trans hfault), hposition, Nat.zero_add, ← length_encode]
      exact ⟨by rw [List.length_append]; omega, by
        rw [List.take_left]
        exact isWellFormed_iff.mpr ⟨text, rfl⟩⟩
  · rintro n ⟨hn, hwell⟩
    obtain ⟨text, htext⟩ := isWellFormed_iff.mp hwell
    have hwidth : byteWidth text = n := by
      rw [← length_encode, ← htext, List.length_take, Nat.min_eq_left hn]
    rw [← List.take_append_drop n bytes, htext, decode, decodeFrom_encode, hwidth, Nat.zero_add] at h
    cases hrest : decodeFrom n [] [] (bytes.drop n) with
    | ok rest =>
      rw [hrest] at h
      cases h
    | error fault' =>
      rw [hrest] at h
      cases h
      exact le_position_of_decodeFrom hrest

end Utf8

end Callout

import Callout.Source.Basic
import Mathlib.Data.List.Forall2

namespace Callout.Utf8

/-- A byte that may follow, by the bounds for its place. -/
def Fits (bound : UInt8 × UInt8) (b : UInt8) : Prop :=
  bound.1 ≤ b ∧ b ≤ bound.2

/-- Bytes that continue a character and never begin one. -/
def IsContinuation (b : UInt8) : Prop :=
  0x80 ≤ b ∧ b < 0xc0

theorem followers_eq_of_toNat {b : UInt8} :
    followers b =
      if b.toNat < 0x80 then some []
      else if b.toNat < 0xc2 then none
      else if b.toNat < 0xe0 then some [(0x80, 0xbf)]
      else if b.toNat = 0xe0 then some [(0xa0, 0xbf), (0x80, 0xbf)]
      else if b.toNat = 0xed then some [(0x80, 0x9f), (0x80, 0xbf)]
      else if b.toNat < 0xf0 then some [(0x80, 0xbf), (0x80, 0xbf)]
      else if b.toNat = 0xf0 then some [(0x90, 0xbf), (0x80, 0xbf), (0x80, 0xbf)]
      else if b.toNat < 0xf4 then some [(0x80, 0xbf), (0x80, 0xbf), (0x80, 0xbf)]
      else if b.toNat = 0xf4 then some [(0x80, 0x8f), (0x80, 0xbf), (0x80, 0xbf)]
      else none := by
  simp only [followers, UInt8.lt_iff_toNat_lt, ← UInt8.toNat_inj, UInt8.reduceToNat]

theorem fits_iff {low high b : UInt8} :
    Fits (low, high) b ↔ low.toNat ≤ b.toNat ∧ b.toNat ≤ high.toNat := by
  simp only [Fits, UInt8.le_iff_toNat_le]

theorem continuation_not_first {b : UInt8} (h : IsContinuation b) : followers b = none := by
  obtain ⟨low, high⟩ := h
  simp only [UInt8.le_iff_toNat_le, UInt8.lt_iff_toNat_lt, UInt8.reduceToNat] at low high
  rw [followers_eq_of_toNat, if_neg (by omega), if_pos (by omega)]

theorem followers_bounds {first : UInt8} {bounds : List (UInt8 × UInt8)} {bound : UInt8 × UInt8}
    (hf : followers first = some bounds) (hm : bound ∈ bounds) :
    0x80 ≤ bound.1 ∧ bound.2 < 0xc0 := by
  have hmem : bound = (0x80, 0xbf) ∨ bound = (0xa0, 0xbf) ∨ bound = (0x80, 0x9f) ∨
      bound = (0x90, 0xbf) ∨ bound = (0x80, 0x8f) := by
    rw [followers_eq_of_toNat] at hf
    grind
  rcases hmem with rfl | rfl | rfl | rfl | rfl <;> decide

theorem fits_continuation {first b : UInt8} {bounds : List (UInt8 × UInt8)} {bound : UInt8 × UInt8}
    (hf : followers first = some bounds) (hm : bound ∈ bounds) (hb : Fits bound b) :
    IsContinuation b := by
  obtain ⟨low, high⟩ := followers_bounds hf hm
  exact ⟨UInt8.le_trans low hb.1, UInt8.lt_of_le_of_lt hb.2 high⟩

theorem leadBits_eq_of_toNat {b : UInt8} :
    leadBits b =
      if b.toNat < 0x80 then b.toNat
      else if b.toNat < 0xe0 then b.toNat % 32
      else if b.toNat < 0xf0 then b.toNat % 16
      else b.toNat % 8 := by
  simp only [leadBits, UInt8.lt_iff_toNat_lt, UInt8.reduceToNat]

theorem character_of_value {first : UInt8} {rest : List UInt8} {c : Char}
    (hv : rest.foldl (fun bits b => 64 * bits + b.toNat % 64) (leadBits first) = c.toNat) :
    character (first :: rest) = c := by
  rw [character, hv, Char.ofNat_toNat]

theorem toNat_byte {n : Nat} (h : n < 256) : (UInt8.ofNat n).toNat = n :=
  UInt8.toNat_ofNat_of_lt' h

theorem encoded_two {c : Char} (low : 0x80 ≤ c.toNat) (high : c.toNat < 0x800) :
    ∃ first second, String.utf8EncodeChar c = [first, second] ∧
      first.toNat = 0xc0 + c.toNat / 64 ∧ second.toNat = 0x80 + c.toNat % 64 := by
  refine ⟨UInt8.ofNat (c.toNat / 64 % 32 + 0xc0), UInt8.ofNat (c.toNat % 64 + 0x80), ?_, ?_, ?_⟩
  · rw [String.utf8EncodeChar]
    exact (if_neg (by change ¬c.toNat ≤ _; omega)).trans (if_pos (by change c.toNat ≤ _; omega))
  · rw [toNat_byte (by omega)]; omega
  · rw [toNat_byte (by omega)]; omega

theorem encoded_three {c : Char} (low : 0x800 ≤ c.toNat) (high : c.toNat < 0x10000) :
    ∃ first second third, String.utf8EncodeChar c = [first, second, third] ∧
      first.toNat = 0xe0 + c.toNat / 4096 ∧ second.toNat = 0x80 + c.toNat / 64 % 64 ∧
      third.toNat = 0x80 + c.toNat % 64 := by
  refine ⟨UInt8.ofNat (c.toNat / 4096 % 16 + 0xe0), UInt8.ofNat (c.toNat / 64 % 64 + 0x80),
    UInt8.ofNat (c.toNat % 64 + 0x80), ?_, ?_, ?_, ?_⟩
  · rw [String.utf8EncodeChar]
    exact (if_neg (by change ¬c.toNat ≤ _; omega)).trans
      ((if_neg (by change ¬c.toNat ≤ _; omega)).trans (if_pos (by change c.toNat ≤ _; omega)))
  · rw [toNat_byte (by omega)]; omega
  · rw [toNat_byte (by omega)]; omega
  · rw [toNat_byte (by omega)]; omega

theorem encoded_four {c : Char} (low : 0x10000 ≤ c.toNat) (high : c.toNat < 0x110000) :
    ∃ first second third fourth, String.utf8EncodeChar c = [first, second, third, fourth] ∧
      first.toNat = 0xf0 + c.toNat / 262144 ∧ second.toNat = 0x80 + c.toNat / 4096 % 64 ∧
      third.toNat = 0x80 + c.toNat / 64 % 64 ∧ fourth.toNat = 0x80 + c.toNat % 64 := by
  refine ⟨UInt8.ofNat (c.toNat / 262144 % 8 + 0xf0), UInt8.ofNat (c.toNat / 4096 % 64 + 0x80),
    UInt8.ofNat (c.toNat / 64 % 64 + 0x80), UInt8.ofNat (c.toNat % 64 + 0x80), ?_, ?_, ?_, ?_, ?_⟩
  · rw [String.utf8EncodeChar]
    exact (if_neg (by change ¬c.toNat ≤ _; omega)).trans
      ((if_neg (by change ¬c.toNat ≤ _; omega)).trans (if_neg (by change ¬c.toNat ≤ _; omega)))
  · rw [toNat_byte (by omega)]; omega
  · rw [toNat_byte (by omega)]; omega
  · rw [toNat_byte (by omega)]; omega
  · rw [toNat_byte (by omega)]; omega

theorem encoded_one {c : Char} (high : c.toNat < 0x80) :
    ∃ first, String.utf8EncodeChar c = [first] ∧ first.toNat = c.toNat := by
  refine ⟨UInt8.ofNat c.toNat, ?_, toNat_byte (by omega)⟩
  rw [String.utf8EncodeChar]
  exact if_pos (by change c.toNat ≤ _; omega)

theorem toNat_valid (c : Char) : c.toNat < 0xd800 ∨ 0xdfff < c.toNat ∧ c.toNat < 0x110000 :=
  c.valid

/-- Whether the bytes of a character are a first byte and as many bytes as it asks for, each within
its bounds, from which the character is read back. -/
def IsShaped (c : Char) : Prop :=
  ∃ first tail bounds, String.utf8EncodeChar c = first :: tail ∧ followers first = some bounds ∧
    List.Forall₂ Fits bounds tail ∧ character (first :: tail) = c

theorem isShaped_one {c : Char} (high : c.toNat < 0x80) : IsShaped c := by
  obtain ⟨a, he, ha⟩ := encoded_one high
  refine ⟨a, [], [], he, ?_, .nil, character_of_value ?_⟩
  · rw [followers_eq_of_toNat, if_pos (by omega)]
  · rw [List.foldl_nil, leadBits_eq_of_toNat, if_pos (by omega), ha]

theorem isShaped_two {c : Char} (low : 0x80 ≤ c.toNat) (high : c.toNat < 0x800) : IsShaped c := by
  obtain ⟨a, b, he, ha, hb⟩ := encoded_two low high
  refine ⟨a, [b], [(0x80, 0xbf)], he, ?_, .cons (fits_iff.mpr ?_) .nil, character_of_value ?_⟩
  · rw [followers_eq_of_toNat, if_neg (by omega), if_neg (by omega), if_pos (by omega)]
  · simp only [UInt8.reduceToNat]; omega
  · rw [List.foldl_cons, List.foldl_nil, leadBits_eq_of_toNat, if_neg (by omega),
      if_pos (by omega)]
    omega

theorem isShaped_three {c : Char} (low : 0x800 ≤ c.toNat) (high : c.toNat < 0x10000) :
    IsShaped c := by
  have valid := toNat_valid c
  obtain ⟨a, b, d, he, ha, hb, hd⟩ := encoded_three low high
  have hread : character [a, b, d] = c := by
    apply character_of_value
    simp only [List.foldl_cons, List.foldl_nil]
    rw [leadBits_eq_of_toNat, if_neg (by omega), if_neg (by omega), if_pos (by omega)]
    omega
  have hlast : Fits (0x80, 0xbf) d := fits_iff.mpr (by simp only [UInt8.reduceToNat]; omega)
  have hfirst : ∃ low high, followers a = some [(low, high), (0x80, 0xbf)] ∧
      Fits (low, high) b := by
    rw [followers_eq_of_toNat, if_neg (by omega), if_neg (by omega), if_neg (by omega)]
    by_cases he0 : a.toNat = 0xe0
    · exact ⟨_, _, if_pos he0, fits_iff.mpr (by simp only [UInt8.reduceToNat]; omega)⟩
    by_cases hed : a.toNat = 0xed
    · exact ⟨_, _, by rw [if_neg he0, if_pos hed],
        fits_iff.mpr (by simp only [UInt8.reduceToNat]; omega)⟩
    · exact ⟨_, _, by rw [if_neg he0, if_neg hed, if_pos (by omega)],
        fits_iff.mpr (by simp only [UInt8.reduceToNat]; omega)⟩
  obtain ⟨low, high, hf, hb⟩ := hfirst
  exact ⟨a, [b, d], _, he, hf, .cons hb (.cons hlast .nil), hread⟩

theorem isShaped_four {c : Char} (low : 0x10000 ≤ c.toNat) (high : c.toNat < 0x110000) :
    IsShaped c := by
  obtain ⟨a, b, d, e, he, ha, hb, hd, hlast⟩ := encoded_four low high
  have hread : character [a, b, d, e] = c := by
    apply character_of_value
    simp only [List.foldl_cons, List.foldl_nil]
    rw [leadBits_eq_of_toNat, if_neg (by omega), if_neg (by omega), if_neg (by omega)]
    omega
  have hthird : Fits (0x80, 0xbf) d := fits_iff.mpr (by simp only [UInt8.reduceToNat]; omega)
  have hfourth : Fits (0x80, 0xbf) e := fits_iff.mpr (by simp only [UInt8.reduceToNat]; omega)
  have hfirst : ∃ low high, followers a = some [(low, high), (0x80, 0xbf), (0x80, 0xbf)] ∧
      Fits (low, high) b := by
    rw [followers_eq_of_toNat, if_neg (by omega), if_neg (by omega), if_neg (by omega),
      if_neg (by omega), if_neg (by omega), if_neg (by omega)]
    by_cases hf0 : a.toNat = 0xf0
    · exact ⟨_, _, if_pos hf0, fits_iff.mpr (by simp only [UInt8.reduceToNat]; omega)⟩
    by_cases hf4 : a.toNat < 0xf4
    · exact ⟨_, _, by rw [if_neg hf0, if_pos hf4],
        fits_iff.mpr (by simp only [UInt8.reduceToNat]; omega)⟩
    · exact ⟨_, _, by rw [if_neg hf0, if_neg hf4, if_pos (by omega)],
        fits_iff.mpr (by simp only [UInt8.reduceToNat]; omega)⟩
  obtain ⟨low, high, hf, hb⟩ := hfirst
  exact ⟨a, [b, d, e], _, he, hf, .cons hb (.cons hthird (.cons hfourth .nil)), hread⟩

theorem isShaped (c : Char) : IsShaped c := by
  have valid := toNat_valid c
  by_cases h1 : c.toNat < 0x80
  · exact isShaped_one h1
  by_cases h2 : c.toNat < 0x800
  · exact isShaped_two (by omega) h2
  by_cases h3 : c.toNat < 0x10000
  · exact isShaped_three (by omega) h3
  · exact isShaped_four (by omega) (by omega)

end Callout.Utf8

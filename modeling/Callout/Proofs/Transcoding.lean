import Callout.Proofs.LineTiling
import Callout.Proofs.WellFormedBytes

namespace Callout

namespace Utf8

theorem exists_text_iff {codes : List Nat} :
    (∃ text : List Char, codes = text.map Char.toNat) ↔ ∀ code ∈ codes, code.isValidChar := by
  constructor
  · rintro ⟨text, rfl⟩ code hcode
    obtain ⟨c, _, rfl⟩ := List.mem_map.mp hcode
    exact c.valid
  · intro h
    induction codes with
    | nil => exact ⟨[], rfl⟩
    | cons code codes ih =>
      obtain ⟨hvalid, hrest⟩ := List.forall_mem_cons.mp h
      obtain ⟨c, rfl⟩ := exists_char hvalid
      obtain ⟨text, rfl⟩ := ih hrest
      exact ⟨c :: text, rfl⟩

/-- Code points are read up to the first that stands for no character. -/
theorem scalarsFrom_split (position : Nat) (codes : List Nat) : ∃ text : List Char,
    (scalarsFrom position codes = .ok text ∧ codes = text.map Char.toNat) ∨
      ∃ code rest fault, codes = text.map Char.toNat ++ code :: rest ∧ ¬code.isValidChar ∧
        scalarsFrom position codes = .error fault ∧ fault.position = position + text.length := by
  induction codes generalizing position with
  | nil => exact ⟨[], .inl ⟨rfl, rfl⟩⟩
  | cons code codes ih =>
    by_cases hvalid : code.isValidChar
    · obtain ⟨c, rfl⟩ := exists_char hvalid
      rw [scalarsFrom, if_pos hvalid, Char.ofNat_toNat]
      obtain ⟨text, ⟨hok, rfl⟩ | ⟨bad, rest, fault, rfl, hbad, hfault, hposition⟩⟩ := ih (position + 1)
      · exact ⟨c :: text, .inl ⟨by rw [hok]; rfl, rfl⟩⟩
      · refine ⟨c :: text, .inr ⟨bad, rest, fault, rfl, hbad, by rw [hfault]; rfl, ?_⟩⟩
        rw [hposition, List.length_cons, Nat.add_assoc, Nat.add_comm 1]
    · exact ⟨[], .inr ⟨code, codes, _, rfl, hvalid, by rw [scalarsFrom, if_neg hvalid], rfl⟩⟩

theorem scalars_eq_ok_iff {codes : List Nat} {text : List Char} :
    scalars codes = .ok text ↔ codes = text.map Char.toNat := by
  constructor
  · intro h
    obtain ⟨text', ⟨hok, rfl⟩ | ⟨_, _, _, _, _, hfault, _⟩⟩ := scalarsFrom_split 0 codes
    · rw [Except.ok.inj (h.symm.trans hok)]
    · cases h.symm.trans hfault
  · rintro rfl
    exact scalarsFrom_toNat 0 text

/-- Code points that are refused are characters up to the place that is named, and no further. -/
theorem surrogates_isGreatest {codes : List Nat} {fault : Surrogates} (h : scalars codes = .error fault) :
    IsGreatest {n | n ≤ codes.length ∧ ∀ code ∈ codes.take n, code.isValidChar} fault.position := by
  obtain ⟨text, ⟨hok, _⟩ | ⟨code, rest, fault', rfl, hbad, hfault, hposition⟩⟩ := scalarsFrom_split 0 codes
  · cases h.symm.trans hok
  rw [Except.error.inj (h.symm.trans hfault), hposition, Nat.zero_add, ← List.length_map (f := Char.toNat)]
  constructor
  · refine ⟨by rw [List.length_append]; omega, fun found hfound => ?_⟩
    rw [List.take_left] at hfound
    obtain ⟨c, _, rfl⟩ := List.mem_map.mp hfound
    exact c.valid
  · rintro n ⟨_, hvalid⟩
    by_contra hlt
    apply hbad
    apply hvalid
    rw [List.take_append, List.take_of_length_le (by omega)]
    apply List.mem_append_right
    obtain ⟨k, hk⟩ : ∃ k, n - (text.map Char.toNat).length = k + 1 :=
      ⟨n - (text.map Char.toNat).length - 1, by omega⟩
    rw [hk, List.take_succ_cons]
    exact List.mem_cons_self

end Utf8

namespace EncodingFault

/-- The first bad position, in bytes or in characters. -/
def position : EncodingFault → Nat
  | bytes fault => fault.position
  | codes fault => fault.position

/-- The message of a fault names its first bad position, and the last one if there are more. -/
theorem message_eq (fault : EncodingFault) : ∃ subject mark reason, (mark = ":" ∨ mark = "-") ∧
    fault.message = subject ++ " in position " ++ toString fault.position ++ mark ++ reason := by
  have hplace : ": " = ":" ++ " " := by simp
  obtain ⟨place, octets, reason⟩ | ⟨place, codes⟩ := fault
  · by_cases h : ∃ b, octets = [b]
    · obtain ⟨b, rfl⟩ := h
      refine ⟨"'utf-8' codec can't decode byte 0x" ++ String.ofList (Text.hexadecimal 2 b.toNat), ":",
        " " ++ reasonText reason, .inl rfl, ?_⟩
      simp only [message, position, toString, hplace, String.append_assoc]
    · refine ⟨"'utf-8' codec can't decode bytes", "-",
        toString (place + octets.length - 1) ++ ": " ++ reasonText reason, .inr rfl, ?_⟩
      have hsubject : "'utf-8' codec can't decode bytes in position " =
        "'utf-8' codec can't decode bytes" ++ " in position " := by simp
      rw [message]
      split
      next b hb => exact absurd ⟨b, hb⟩ h
      next => simp only [position, toString, hsubject, String.append_assoc]
  · by_cases h : ∃ code, codes = [code]
    · obtain ⟨code, rfl⟩ := h
      refine ⟨"'utf-8' codec can't encode character '" ++ String.ofList (Text.escapeCode code) ++ "'", ":",
        " surrogates not allowed", .inl rfl, ?_⟩
      have hquote : "' in position " = "'" ++ " in position " := by simp
      have hreason : ": " ++ "surrogates not allowed" = ":" ++ " surrogates not allowed" := by simp
      simp only [message, position, toString, hquote, hreason, String.append_assoc]
    · refine ⟨"'utf-8' codec can't encode characters", "-",
        toString (place + codes.length - 1) ++ ": surrogates not allowed", .inr rfl, ?_⟩
      have hsubject : "'utf-8' codec can't encode characters in position " =
        "'utf-8' codec can't encode characters" ++ " in position " := by simp
      have hreason : ": surrogates not allowed" = ": " ++ "surrogates not allowed" := by simp
      rw [message]
      split
      next code hcode => exact absurd ⟨code, hcode⟩ h
      next => simp only [position, toString, hsubject, hreason, String.append_assoc]

end EncodingFault

/-- Whether the message of an error names a position, by itself or as the first of several. -/
def Error.NamesPosition (e : Error) (position : Nat) : Prop :=
  ∃ subject mark reason, (mark = ":" ∨ mark = "-") ∧
    e.message = subject ++ " in position " ++ toString position ++ mark ++ reason

theorem invalidEncoding_namesPosition (fault : EncodingFault) :
    (Error.invalidEncoding fault).NamesPosition fault.position := by
  obtain ⟨subject, mark, reason, hmark, hmessage⟩ := fault.message_eq
  have htext : (Error.invalidEncoding fault).message =
      "source is not valid UTF-8 text: " ++ fault.message := rfl
  rw [hmessage] at htext
  refine ⟨"source is not valid UTF-8 text: " ++ subject, mark, reason, hmark, ?_⟩
  rw [htext]
  simp only [String.append_assoc]

/-- A code point as a text may hold one, surrogate or not. -/
abbrev CodePoint := Fin 0x110000

theorem CodePoint.isValidChar_iff (p : CodePoint) : p.val.isValidChar ↔ ¬Utf8.IsSurrogate p.val := by
  have hlt := p.isLt
  unfold Nat.isValidChar Utf8.IsSurrogate
  omega

theorem CodePoint.forall_isValidChar_iff {points : List CodePoint} :
    (∀ code ∈ points.map Fin.val, code.isValidChar) ↔ ∀ p ∈ points, ¬Utf8.IsSurrogate p.val := by
  rw [List.forall_mem_map]
  exact forall₂_congr fun p _ => CodePoint.isValidChar_iff p

namespace Source

/-- Whether a source is the analysis of bytes and of the codes that they spell. -/
structure Reads (s : Source) (octets : List UInt8) (codes : List Nat) : Prop where
  spells : Utf8.Spells octets codes
  bytes_eq : s.bytes = octets
  codes_eq : s.text.map Char.toNat = codes
  byteLen_eq_sum : s.byteLen = (codes.map Utf8.codeWidth).sum
  byteLen_eq_length : s.byteLen = octets.length

theorem reads_ofText (text : List Char) :
    (ofText text).Reads (Utf8.encode text) (text.map Char.toNat) :=
  ⟨Utf8.spells_encode text, rfl, rfl, Utf8.byteWidth_eq_sum text, (Utf8.length_encode text).symm⟩

theorem analyze_eq_ok_iff {raw : RawText} {s : Source} :
    analyze raw = .ok s ↔ ∃ text, raw.characters = .ok text ∧ s = ofText text := by
  unfold analyze
  split
  next text h => simp [h, eq_comm]
  next fault h => simp [h]

theorem analyze_eq_error_iff {raw : RawText} {e : Error} :
    analyze raw = .error e ↔ ∃ fault, raw.characters = .error fault ∧ e = .invalidEncoding fault := by
  unfold analyze
  split
  next text h => simp [h]
  next fault h => simp [h, eq_comm]

theorem characters_bytes_eq_ok_iff {octets : List UInt8} {text : List Char} :
    (RawText.bytes octets).characters = .ok text ↔ octets = Utf8.encode text := by
  rw [← Utf8.decode_eq_ok_iff, RawText.characters]
  cases Utf8.decode octets <;> simp [Except.mapError]

theorem characters_codes_eq_ok_iff {codes : List Nat} {text : List Char} :
    (RawText.codes codes).characters = .ok text ↔ codes = text.map Char.toNat := by
  rw [← Utf8.scalars_eq_ok_iff, RawText.characters]
  cases Utf8.scalars codes <;> simp [Except.mapError]

theorem characters_bytes_eq_error_iff {octets : List UInt8} {fault : EncodingFault} :
    (RawText.bytes octets).characters = .error fault ↔
      ∃ found, Utf8.decode octets = .error found ∧ fault = .bytes found := by
  rw [RawText.characters]
  cases Utf8.decode octets <;> simp [Except.mapError, eq_comm]

theorem characters_codes_eq_error_iff {codes : List Nat} {fault : EncodingFault} :
    (RawText.codes codes).characters = .error fault ↔
      ∃ found, Utf8.scalars codes = .error found ∧ fault = .codes found := by
  rw [RawText.characters]
  cases Utf8.scalars codes <;> simp [Except.mapError, eq_comm]

end Source

/-- Bytes are analyzed exactly when they are well formed, and code points exactly when there is no surrogate
among them. Either way the source is that of the other form too, and its length is that of its bytes. A failure
names as its position the length of the longest part, from the start on, that could be analyzed. -/
theorem bytes_and_text_agree (octets : List UInt8) (points : List CodePoint) :
    ((∃ s, Source.analyze (.bytes octets) = .ok s) ↔ Utf8.IsWellFormed octets) ∧
    (∀ s, Source.analyze (.bytes octets) = .ok s → ∃ codes, s.Reads octets codes ∧
      Source.analyze (.codes codes) = .ok s) ∧
    (∀ e, Source.analyze (.bytes octets) = .error e → ∃ fault, e = .invalidEncoding fault ∧
      e.NamesPosition fault.position ∧
      IsGreatest {n | n ≤ octets.length ∧ Utf8.IsWellFormed (octets.take n)} fault.position) ∧
    ((∃ s, Source.analyze (.codes (points.map Fin.val)) = .ok s) ↔ ∀ p ∈ points, ¬Utf8.IsSurrogate p) ∧
    (∀ s, Source.analyze (.codes (points.map Fin.val)) = .ok s → ∃ bytes,
      s.Reads bytes (points.map Fin.val) ∧ Source.analyze (.bytes bytes) = .ok s) ∧
    ∀ e, Source.analyze (.codes (points.map Fin.val)) = .error e → ∃ fault, e = .invalidEncoding fault ∧
      e.NamesPosition fault.position ∧
      IsGreatest {n | n ≤ points.length ∧ ∀ p ∈ points.take n, ¬Utf8.IsSurrogate p} fault.position := by
  simp only [Source.analyze_eq_ok_iff, Source.analyze_eq_error_iff, Source.characters_bytes_eq_ok_iff,
    Source.characters_codes_eq_ok_iff, Source.characters_bytes_eq_error_iff,
    Source.characters_codes_eq_error_iff]
  refine ⟨?_, ?_, ?_, ?_, ?_, ?_⟩
  · rw [Utf8.isWellFormed_iff]
    exact ⟨fun ⟨_, text, h, _⟩ => ⟨text, h⟩, fun ⟨text, h⟩ => ⟨_, text, h, rfl⟩⟩
  · rintro s ⟨text, rfl, rfl⟩
    exact ⟨_, Source.reads_ofText text, text, rfl, rfl⟩
  · rintro e ⟨fault, ⟨found, hdecode, rfl⟩, rfl⟩
    exact ⟨_, rfl, invalidEncoding_namesPosition _, Utf8.fault_isGreatest hdecode⟩
  · rw [← CodePoint.forall_isValidChar_iff, ← Utf8.exists_text_iff]
    exact ⟨fun ⟨_, text, h, _⟩ => ⟨text, h⟩, fun ⟨text, h⟩ => ⟨_, text, h, rfl⟩⟩
  · rintro s ⟨text, htext, rfl⟩
    rw [htext]
    exact ⟨_, Source.reads_ofText text, text, rfl, rfl⟩
  · rintro e ⟨fault, ⟨found, hscalars, rfl⟩, rfl⟩
    refine ⟨_, rfl, invalidEncoding_namesPosition _, ?_⟩
    have hgreatest := Utf8.surrogates_isGreatest hscalars
    simp only [List.length_map, ← List.map_take, CodePoint.forall_isValidChar_iff] at hgreatest
    exact hgreatest

end Callout

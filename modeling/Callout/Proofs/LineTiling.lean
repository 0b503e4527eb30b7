import Callout.Proofs.LineTable
import Callout.Proofs.Outcome

namespace Callout

/-- The characters that end a line: line feed, vertical tab, next line, line separator and paragraph
separator. -/
def separators : List Char :=
  ['\n', '\x0b', '\u0085', '\u2028', '\u2029']

theorem isSeparator_iff {c : Char} : isSeparator c = true ↔ c ∈ separators := by
  have hchar : ∀ d : Char, c = d ↔ c.toNat = d.toNat := fun d => Char.toNat_inj.symm
  simp only [isSeparator, separators, Bool.or_eq_true, beq_iff_eq, List.mem_cons, List.not_mem_nil,
    or_false, hchar, or_assoc]
  rfl

/-- A line that is ended: its last character is a separator, and no other is. -/
def IsEnded (t : List Char) : Prop :=
  ∃ front separator, t = front ++ [separator] ∧ separator ∈ separators ∧ ∀ c ∈ front, c ∉ separators

theorem lineTexts_ended (text : List Char) : ∃ ended last, lineTexts text = ended ++ [last] ∧
    (∀ t ∈ ended, IsEnded t) ∧ ∀ c ∈ last, c ∉ separators := by
  induction text with
  | nil => exact ⟨[], [], rfl, by simp, by simp⟩
  | cons c rest ih =>
    obtain ⟨ended, last, htexts, hended, hlast⟩ := ih
    cases hc : isSeparator c with
    | true =>
      refine ⟨[c] :: ended, last, by simp [lineTexts, hc, htexts], ?_, hlast⟩
      intro t ht
      rcases List.mem_cons.mp ht with rfl | ht
      · exact ⟨[], c, rfl, isSeparator_iff.mp hc, by simp⟩
      · exact hended t ht
    | false =>
      have hnot : c ∉ separators := by rw [← isSeparator_iff, hc]; simp
      cases ended with
      | nil =>
        refine ⟨[], c :: last, lineTexts_cons_of_not_separator hc htexts, by simp, ?_⟩
        intro d hd
        rcases List.mem_cons.mp hd with rfl | hd
        · exact hnot
        · exact hlast d hd
      | cons first ended =>
        refine ⟨(c :: first) :: ended, last, lineTexts_cons_of_not_separator hc htexts, ?_, hlast⟩
        obtain ⟨front, separator, rfl, hseparator, hfront⟩ := hended first List.mem_cons_self
        intro t ht
        rcases List.mem_cons.mp ht with rfl | ht
        · refine ⟨c :: front, separator, rfl, hseparator, ?_⟩
          intro d hd
          rcases List.mem_cons.mp hd with rfl | hd
          · exact hnot
          · exact hfront d hd
        · exact hended t (List.mem_cons_of_mem _ ht)

theorem scalarsFrom_toNat (position : Nat) (text : List Char) :
    Utf8.scalarsFrom position (text.map Char.toNat) = .ok text := by
  induction text generalizing position with
  | nil => rfl
  | cons c text ih =>
    have hvalid : c.toNat.isValidChar := c.valid
    rw [List.map_cons, Utf8.scalarsFrom, if_pos hvalid, ih, Char.ofNat_toNat]
    rfl

namespace Source

theorem analyze_codes (text : List Char) :
    analyze (.codes (text.map Char.toNat)) = .ok (ofText text) := by
  simp only [analyze, RawText.characters, Utf8.scalars, scalarsFrom_toNat, Except.mapError]

theorem analyze_bytes (text : List Char) : analyze (.bytes (Utf8.encode text)) = .ok (ofText text) := by
  simp only [analyze, RawText.characters, Utf8.decode_encode, Except.mapError]

variable {s : Source} {i : Nat} {line : Line}

/-- The lines of a source follow each other without gap or overlap, from its start to its end. -/
structure IsTiled (s : Source) : Prop where
  first : ∀ line, s.lines[0]? = some line → line.charOffset = 0 ∧ line.byteOffset = 0
  next : ∀ i line next, s.lines[i]? = some line → s.lines[i + 1]? = some next →
    next.charOffset = line.charOffset + line.charLen ∧
      next.byteOffset = line.byteOffset + line.byteLen
  last : ∀ line, s.lines.getLast? = some line →
    line.charOffset + line.charLen = s.charLen ∧ line.byteOffset + line.byteLen = s.byteLen

theorem isTiled (s : Source) : s.IsTiled := by
  refine ⟨?_, ?_, ?_⟩
  · intro line h
    exact (line_bounds h).1
  · intro i line next h hnext
    obtain ⟨hchars, hbytes⟩ := (line_bounds hnext).1
    obtain ⟨hcharEnd, hbyteEnd⟩ := (line_bounds h).2
    exact ⟨hchars.trans hcharEnd.symm, hbytes.trans hbyteEnd.symm⟩
  · intro line h
    rw [List.getLast?_eq_getElem?] at h
    obtain ⟨hcharEnd, hbyteEnd⟩ := (line_bounds h).2
    have hpos := s.lines_length_pos
    have hall : (lineTexts s.text).take (s.lines.length - 1 + 1) = lineTexts s.text := by
      rw [Nat.sub_add_cancel hpos, lines_length, List.take_length]
    rw [hall, lineTexts_flatten] at hcharEnd hbyteEnd
    exact ⟨hcharEnd.trans s.charLen_eq.symm, hbyteEnd.trans s.byteLen_eq.symm⟩

/-- The slice of a line is its text. -/
theorem lineSlice_eq_of_lineTexts {t : List Char} (h : (lineTexts s.text)[i]? = some t) :
    s.lineSlice i = .ok t := by
  have hline := s.getElem?_lines i
  rw [h, Option.map_some] at hline
  exact lineSlice_of_split hline (text_split h) rfl

theorem exists_lineText (h : i < s.lines.length) :
    ∃ t, (lineTexts s.text)[i]? = some t ∧ s.lineSlice i = .ok t := by
  rw [lines_length] at h
  have ht := List.getElem?_eq_getElem h
  exact ⟨_, ht, lineSlice_eq_of_lineTexts ht⟩

/-- Every index from zero to the number of lines has a slice, and no other has. -/
theorem lineSlice_cases (s : Source) (index : Int) :
    (0 ≤ index ∧ index < s.lines.length → ∃ slice, s.lineSlice index = .ok slice) ∧
    (¬(0 ≤ index ∧ index < s.lines.length) →
      s.lineSlice index = .error (.lineOutside index s.lines.length)) := by
  constructor
  · rintro ⟨hlow, hhigh⟩
    obtain ⟨i, rfl⟩ := Int.eq_ofNat_of_zero_le hlow
    obtain ⟨t, _, hslice⟩ := exists_lineText (Int.ofNat_lt.mp hhigh)
    exact ⟨t, hslice⟩
  · intro hout
    have hline : s.line index = .error (.lineOutside index s.lines.length) := by
      unfold Source.line
      split
      next hlow =>
        have hnone : s.lines[index.toNat]? = none := List.getElem?_eq_none (by omega)
        rw [hnone]
      next => rfl
    rw [lineSlice, hline]
    rfl

/-- A slice has the lengths that the table gives, and ends with its only separator unless it is the
last. -/
structure FitsLine (s : Source) (i : Nat) (line : Line) (slice : List Char) : Prop where
  charLen : slice.length = line.charLen
  byteLen : (Utf8.encode slice).length = line.byteLen
  ended : i + 1 < s.lines.length → IsEnded slice
  last : i + 1 = s.lines.length → ∀ c ∈ slice, c ∉ separators

theorem fitsLine {slice : List Char} (h : s.lines[i]? = some line)
    (hslice : s.lineSlice i = .ok slice) : s.FitsLine i line slice := by
  obtain ⟨t, ht, htext⟩ := exists_lineText (List.getElem?_eq_some_iff.mp h).1
  obtain rfl : t = slice := Except.ok.inj (htext.symm.trans hslice)
  rw [getElem?_lines, ht] at h
  cases h
  obtain ⟨ended, last, htexts, hended, hlast⟩ := lineTexts_ended s.text
  have hlength : s.lines.length = ended.length + 1 := by
    rw [lines_length, htexts, List.length_append, List.length_singleton]
  rw [htexts] at ht
  refine ⟨rfl, Utf8.length_encode t, ?_, ?_⟩
  · intro hi
    rw [List.getElem?_append_left (by omega)] at ht
    exact hended t (List.mem_of_getElem? ht)
  · intro hi
    rw [show i = ended.length by omega, List.getElem?_concat_length] at ht
    cases ht
    exact hlast

theorem slices_eq (s : Source) :
    (List.range s.lines.length).mapM (fun i : Nat => s.lineSlice i) = .ok (lineTexts s.text) := by
  have hslices : ∀ i ∈ List.range s.lines.length,
      s.lineSlice i = .ok ((lineTexts s.text)[i]?.getD []) := by
    intro i hi
    obtain ⟨t, ht, hslice⟩ := exists_lineText (List.mem_range.mp hi)
    rw [hslice, ht, Option.getD_some]
  rw [mapM_eq_ok_map hslices]
  congr 1
  apply List.ext_getElem
  · rw [List.length_map, List.length_range, lines_length]
  · intro i hleft hright
    rw [List.getElem_map, List.getElem_range, List.getElem?_eq_getElem hright, Option.getD_some]

end Source

/-- The analysis of a text, handed in as code points or as bytes, has a table of at least one line.
Its lines tile the text, in characters and in bytes; exactly their indices have slices, each as long as
the table says and ended by its only separator, the last by none; the slices make up the text. -/
theorem analyze_tiles (text : List Char) : ∃ s : Source,
    Source.analyze (.codes (text.map Char.toNat)) = .ok s ∧
    Source.analyze (.bytes (Utf8.encode text)) = .ok s ∧
    s.text = text ∧ s.charLen = text.length ∧ s.byteLen = (Utf8.encode text).length ∧
    0 < s.lines.length ∧ s.IsTiled ∧
    (∀ index : Int,
      (0 ≤ index ∧ index < s.lines.length → ∃ slice, s.lineSlice index = .ok slice) ∧
      (¬(0 ≤ index ∧ index < s.lines.length) →
        s.lineSlice index = .error (.lineOutside index s.lines.length))) ∧
    (∀ (i : Nat) (line : Line) (slice : List Char), s.lines[i]? = some line →
      s.lineSlice i = .ok slice → s.FitsLine i line slice) ∧
    ∃ slices, (List.range s.lines.length).mapM (fun i : Nat => s.lineSlice i) = .ok slices ∧
      slices.flatten = text := by
  refine ⟨Source.ofText text, Source.analyze_codes text, Source.analyze_bytes text, rfl, rfl, ?_,
    Source.lines_length_pos _, Source.isTiled _, Source.lineSlice_cases _, ?_, ?_⟩
  · exact (Utf8.length_encode text).symm
  · intro i line slice hline hslice
    exact Source.fitsLine hline hslice
  · exact ⟨_, Source.slices_eq _, lineTexts_flatten text⟩

end Callout

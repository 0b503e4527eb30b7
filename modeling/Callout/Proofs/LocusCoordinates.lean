import Callout.Proofs.PositionLookup

namespace Callout

/-- Whether a coordinate comes before another one: on a line above, or further left on the same line. -/
def Locus.Before (l m : Locus) : Prop :=
  l.line < m.line ∨ l.line = m.line ∧ l.column < m.column

/-- What the column of a coordinate says, on a line and its text: it counts the characters up to a position,
in the source after those of the lines before and in bytes from the start of the line. -/
structure Source.Locates (s : Source) (column position : Nat) (line : Line) (slice : List Char) :
    Prop where
  chars : ∃ before after, s.text = before ++ after ∧ byteWidth before = position ∧
    line.charOffset + column = before.length
  bytes : line.byteOffset + (Utf8.encode (slice.take column)).length = position
  column_lt : position < s.byteLen → column < line.charLen

namespace Source

variable {s : Source} {span other : Span} {l m : Locus} {i position : Nat} {line : Line}
  {slice left right : List Char}

/-- A boundary of characters parts the text of its line. -/
theorem exists_split_of_isBoundary (hon : s.OnLine position i) (hline : s.lines[i]? = some line)
    (hslice : s.lineSlice i = .ok slice) (hb : IsBoundary s.text position) :
    ∃ left right, slice = left ++ right ∧ line.byteOffset + byteWidth left = position := by
  have hlow := hon.byteOffset_le hline
  have hhigh := hon.le_byteEnd hline
  have hend : line.byteEnd = line.byteOffset + line.byteLen := rfl
  rw [← Nat.add_sub_cancel' hlow, ← isBoundary_slice_iff hline hslice (by omega)] at hb
  obtain ⟨left, right, hsplit, hleft⟩ := hb
  exact ⟨left, right, hsplit, by omega⟩

theorem locates_of_split (hline : s.lines[i]? = some line)
    (hslice : s.lineSlice i = .ok (left ++ right)) (hon : s.OnLine position i)
    (hleft : line.byteOffset + byteWidth left = position) :
    s.Locates left.length position line (left ++ right) := by
  obtain ⟨head, mid, tail, htext, hfields, _⟩ := line_split hline
  cases hslice.symm.trans (lineSlice_of_split hline htext hfields)
  have hbyteOffset : line.byteOffset = byteWidth head := by rw [hfields]
  have hbyteLen : line.byteLen = byteWidth (left ++ right) := by rw [hfields]
  have hcharOffset : line.charOffset = head.length := by rw [hfields]
  have hcharLen : line.charLen = (left ++ right).length := by rw [hfields]
  refine ⟨⟨head ++ left, right ++ tail, ?_, ?_, ?_⟩, ?_, fun hlt => ?_⟩
  · rw [htext]
    simp only [List.append_assoc]
  · rw [byteWidth_append, ← hbyteOffset, hleft]
  · rw [hcharOffset, List.length_append]
  · rw [List.take_left, Utf8.length_encode, hleft]
  · have hinside := hon.lt_byteEnd hline hlt
    have hright : right ≠ [] := by
      rintro rfl
      rw [Line.byteEnd, hbyteLen, List.append_nil] at hinside
      omega
    have := List.length_pos_iff.mpr hright
    rw [hcharLen, List.length_append]
    omega

theorem locus_eq (hstop : span.stop ≤ s.byteLen) (hon : s.OnLine span.start i)
    (hline : s.lines[i]? = some line) :
    s.locus span = (s.textBetween line.byteOffset span.start).map fun before =>
      ⟨i + 1, before.length⟩ := by
  have hat : s.lineAt span.start = .ok i := lineAt_eq_ok_iff.mpr hon
  have hget : s.line i = .ok line := line_eq_ok_iff.mpr hline
  rw [locus, if_neg (by omega)]
  simp only [hat, hget, bind, Except.bind, pure, Except.pure, Except.map]

theorem stop_le_of_locus (h : s.locus span = .ok l) : span.stop ≤ s.byteLen := by
  by_contra hlt
  rw [locus, if_pos (by omega)] at h
  cases h

theorem locus_of_isBoundary (hstop : span.stop ≤ s.byteLen) (hb : IsBoundary s.text span.start) :
    ∃ i line left right, s.OnLine span.start i ∧ s.lines[i]? = some line ∧
      s.lineSlice i = .ok (left ++ right) ∧ line.byteOffset + byteWidth left = span.start ∧
      s.locus span = .ok ⟨i + 1, left.length⟩ := by
  have hle := span.start_le_stop
  obtain ⟨i, _, hon⟩ := exists_lineAt (show span.start ≤ s.byteLen by omega)
  obtain ⟨line, hline⟩ := exists_line hon.lt_length
  obtain ⟨slice, hslice, _⟩ := exists_lineSlice hline
  obtain ⟨left, right, rfl, hleft⟩ := exists_split_of_isBoundary hon hline hslice hb
  have htext := textBetween_slice_start hline hslice rfl
  rw [hleft] at htext
  exact ⟨i, line, left, right, hon, hline, hslice, hleft, by rw [locus_eq hstop hon hline, htext]; rfl⟩

theorem locus_of_not_isBoundary (hstop : span.stop ≤ s.byteLen)
    (hb : ¬IsBoundary s.text span.start) :
    ∃ part, s.locus span = .error (.spanOutside part .misaligned) := by
  have hle := span.start_le_stop
  obtain ⟨i, _, hon⟩ := exists_lineAt (show span.start ≤ s.byteLen by omega)
  obtain ⟨line, hline⟩ := exists_line hon.lt_length
  obtain ⟨slice, hslice, _⟩ := exists_lineSlice hline
  have hfirst : IsBoundary s.text line.byteOffset :=
    (isBoundary_slice_iff hline hslice (Nat.zero_le _)).mp (isBoundary_zero slice)
  have hlt : line.byteOffset < span.start :=
    Nat.lt_of_le_of_ne (hon.byteOffset_le hline) fun heq => hb (heq ▸ hfirst)
  have htext := textBetween_misaligned hlt (Nat.le_trans hle hstop) fun hboth => hb hboth.2
  exact ⟨_, by rw [locus_eq hstop hon hline, htext]; rfl⟩

theorem isBoundary_of_locus (h : s.locus span = .ok l) : IsBoundary s.text span.start := by
  by_contra hb
  obtain ⟨part, herror⟩ := locus_of_not_isBoundary (stop_le_of_locus h) hb
  cases h.symm.trans herror

/-- What the coordinate of a span tells: the line that the span starts on, and how much of its text is
before the start. -/
theorem split_of_locus (h : s.locus span = .ok l) :
    ∃ i line left right, s.OnLine span.start i ∧ s.lines[i]? = some line ∧
      s.lineSlice i = .ok (left ++ right) ∧ line.byteOffset + byteWidth left = span.start ∧
      l = ⟨i + 1, left.length⟩ := by
  obtain ⟨i, line, left, right, hon, hline, hslice, hleft, hlocus⟩ :=
    locus_of_isBoundary (stop_le_of_locus h) (isBoundary_of_locus h)
  exact ⟨i, line, left, right, hon, hline, hslice, hleft, Except.ok.inj (h.symm.trans hlocus)⟩

theorem locates_of_locus (h : s.locus span = .ok l) :
    ∃ line slice, s.line (l.line - 1) = .ok line ∧ s.lineSlice (l.line - 1) = .ok slice ∧
      s.Locates l.column span.start line slice := by
  obtain ⟨i, line, left, right, hon, hline, hslice, hleft, rfl⟩ := split_of_locus h
  have hindex : ((i + 1 : Nat) : Int) - 1 = i := by omega
  exact ⟨line, left ++ right, by rw [hindex, line_eq_ok_iff.mpr hline], by rw [hindex, hslice],
    locates_of_split hline hslice hon hleft⟩

theorem locus_congr (hl : s.locus span = .ok l) (hm : s.locus other = .ok m)
    (hstart : span.start = other.start) : l = m := by
  obtain ⟨i, line, _, _, hon, hline, _⟩ := split_of_locus hl
  have hl' := locus_eq (stop_le_of_locus hl) hon hline
  have hm' := locus_eq (stop_le_of_locus hm) (hstart ▸ hon) hline
  rw [hstart, ← hm', hl, hm] at hl'
  exact Except.ok.inj hl'

/-- On one line the position further right has more characters before it. -/
theorem before_of_start_lt (hl : s.locus span = .ok l) (hm : s.locus other = .ok m)
    (hlt : span.start < other.start) : l.Before m := by
  obtain ⟨i, line, left, right, hon, hline, hslice, hleft, rfl⟩ := split_of_locus hl
  obtain ⟨j, line', left', right', hon', hline', hslice', hleft', rfl⟩ := split_of_locus hm
  rcases Nat.lt_or_eq_of_le (hon.le_of_le hon' (Nat.le_of_lt hlt)) with habove | rfl
  · exact .inl (Nat.succ_lt_succ habove)
  · cases hline.symm.trans hline'
    have hsame : left ++ right = left' ++ right' := Except.ok.inj (hslice.symm.trans hslice')
    have htake : (left ++ right).take left.length = left := List.take_left
    have htake' : (left ++ right).take left'.length = left' := by rw [hsame, List.take_left]
    have hlength' : left'.length ≤ (left ++ right).length := by rw [hsame, List.length_append]; omega
    have hwidth := byteWidth_take_le_iff hlength'
      (show left.length ≤ (left ++ right).length by rw [List.length_append]; omega)
    rw [htake, htake'] at hwidth
    exact .inr ⟨rfl, show left.length < left'.length by omega⟩

/-- Coordinates are in the order of the positions. -/
theorem locus_order (hl : s.locus span = .ok l) (hm : s.locus other = .ok m) :
    (span.start < other.start ↔ l.Before m) ∧ (span.start = other.start ↔ l = m) := by
  rcases Nat.lt_trichotomy span.start other.start with hlt | heq | hgt
  · have hbefore := before_of_start_lt hl hm hlt
    refine ⟨iff_of_true hlt hbefore, iff_of_false (by omega) ?_⟩
    rintro rfl
    unfold Locus.Before at hbefore
    omega
  · obtain rfl := locus_congr hl hm heq
    refine ⟨iff_of_false (by omega) fun hbefore => ?_, iff_of_true heq rfl⟩
    unfold Locus.Before at hbefore
    omega
  · have hafter := before_of_start_lt hm hl hgt
    unfold Locus.Before at *
    refine ⟨iff_of_false (by omega) (by omega), iff_of_false (by omega) ?_⟩
    rintro rfl
    omega

end Source

/-- A span that stops in a source has a coordinate exactly when it starts at a boundary of characters. The
coordinate leads back to the start of the span, and is before that of another span when it starts before
it. -/
theorem locus_is_exact {s : Source} {span : Span} (h : span.stop ≤ s.byteLen) :
    ((∃ l, s.locus span = .ok l) ↔ IsBoundary s.text span.start) ∧
    (¬IsBoundary s.text span.start →
      ∃ part, s.locus span = .error (.spanOutside part .misaligned)) ∧
    ∀ l, s.locus span = .ok l →
      (∃ line slice, s.line (l.line - 1) = .ok line ∧ s.lineSlice (l.line - 1) = .ok slice ∧
        s.Locates l.column span.start line slice) ∧
      ∀ other m, s.locus other = .ok m →
        (span.start < other.start ↔ l.Before m) ∧ (span.start = other.start ↔ l = m) := by
  refine ⟨⟨fun ⟨l, hl⟩ => Source.isBoundary_of_locus hl, fun hb => ?_⟩,
    Source.locus_of_not_isBoundary h,
    fun l hl => ⟨Source.locates_of_locus hl, fun other m hm => Source.locus_order hl hm⟩⟩
  obtain ⟨i, _, left, _, _, _, _, _, hlocus⟩ := Source.locus_of_isBoundary h hb
  exact ⟨_, hlocus⟩

/-- Three letters of two bytes each, the last two on a second line. -/
def greekLetters : Source := Source.ofText ['α', '\n', 'β', 'γ']

/-- The third letter is the second of its line, and the sixth and seventh byte of the source. -/
theorem greekLetters_locus : greekLetters.locus ⟨5, 7, by decide⟩ = .ok ⟨2, 1⟩ ∧
    greekLetters.Locates 1 5 ⟨2, 2, 3, 4⟩ ['β', 'γ'] := by
  have hlocus : greekLetters.locus ⟨5, 7, by decide⟩ = .ok ⟨2, 1⟩ := by decide
  have hstop : (⟨5, 7, by decide⟩ : Span).stop ≤ greekLetters.byteLen := by decide
  obtain ⟨_, _, hexact⟩ := locus_is_exact hstop
  obtain ⟨⟨line, slice, hline, hslice, hlocates⟩, _⟩ := hexact _ hlocus
  cases hline
  cases hslice
  exact ⟨hlocus, hlocates⟩

end Callout

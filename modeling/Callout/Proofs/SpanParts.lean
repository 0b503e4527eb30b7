import Callout.Placement
import Callout.Proofs.Outcome
import Callout.Proofs.PositionLookup

namespace Callout

/-- A part of a line, counted from the start of the line, that is what the line and a span have in
common. -/
structure Line.IsPartOf (line : Line) (part span : Span) : Prop where
  start_eq : line.byteOffset + part.start = max line.byteOffset span.start
  stop_eq : line.byteOffset + part.stop = min line.byteEnd span.stop
  stop_le : part.stop ≤ line.byteLen
  holds_iff : ∀ x, part.Holds x ↔ x < line.byteLen ∧ span.Holds (line.byteOffset + x)
  empty : part.start = part.stop → span.start = span.stop

/-- Whether a byte is in what a span has on a line: in its part on the line, or anywhere on a line between
its first and its last. -/
def Source.HasOn (s : Source) (span : Span) (startLine endLine i b : Nat) : Prop :=
  ∃ line, s.lines[i]? = some line ∧ (startLine < i ∧ i < endLine ∧ line.Holds b ∨
    ∃ part x, s.localSpan i span = .ok (some part) ∧ part.Holds x ∧ line.byteOffset + x = b)

theorem exists_natCast_of_bound {index : Int} {startLine endLine : Nat}
    (h : ¬(index ≠ startLine ∧ index ≠ endLine)) :
    ∃ i : Nat, index = i ∧ (i = startLine ∨ i = endLine) := by
  by_cases hs : index = startLine
  · exact ⟨startLine, hs, .inl rfl⟩
  · exact ⟨endLine, by omega, .inr rfl⟩

namespace Source

variable {s : Source} {span part : Span} {index : Int} {b i startLine endLine : Nat} {line : Line}

theorem mark?_off_line (hout : index ≠ startLine ∧ index ≠ endLine) :
    s.mark? index span startLine endLine = .ok none := by
  rw [mark?, if_pos hout]

section SpanLines

variable (h : s.spanLines span = .ok (startLine, endLine))
include h

theorem lt_length_of_bound (hi : i = startLine ∨ i = endLine) : i < s.lines.length := by
  rcases hi with rfl | rfl
  · exact (start_onLine h).lt_length
  · exact (last_onLine h).lt_length

/-- The mark of a span on its first or its last line runs from the start of the span or the line to the
end of the span or the line. -/
theorem mark?_on_line (hline : s.lines[i]? = some line) (hi : i = startLine ∨ i = endLine) :
    ∃ mark : Span, s.mark? i span startLine endLine = .ok (some mark) ∧
      line.byteOffset + mark.start = (if i = startLine then span.start else line.byteOffset) ∧
      line.byteOffset + mark.stop = (if i = endLine then span.stop else line.byteEnd) := by
  have hle := span.start_le_stop
  have hstart : i = startLine → line.byteOffset ≤ span.start ∧ span.start ≤ line.byteEnd := by
    rintro rfl
    exact bounds_of_startLine h hline
  have hstop : i = endLine → line.byteOffset ≤ span.stop := by
    rintro rfl
    exact (bounds_of_endLine h hline).1
  have hend : line.byteEnd = line.byteOffset + line.byteLen := rfl
  let mark : Span :=
    ⟨if i = startLine then span.start - line.byteOffset else 0,
      if i = endLine then span.stop - line.byteOffset else line.byteLen, by
        split <;> split <;> omega⟩
  have hstartMark : (if (i : Int) = startLine then (span.start : Int) - line.byteOffset else 0) =
      mark.start := by
    simp only [mark, Int.ofNat_inj]
    split <;> omega
  have hstopMark : (if (i : Int) = endLine then (span.stop : Int) - line.byteOffset
      else line.byteLen) = mark.stop := by
    simp only [mark, Int.ofNat_inj]
    split <;> omega
  refine ⟨mark, ?_, ?_, ?_⟩
  · rw [mark?, if_neg (by omega), line_eq_ok_iff.mpr hline]
    change (do return some (← Span.ofBounds _ _)) = _
    rw [Span.ofBounds_eq_ok hstartMark hstopMark]
    rfl
  · simp only [mark]
    split <;> omega
  · simp only [mark]
    split <;> omega

/-- Marking never fails: a span has a mark on its first and its last line, with its bounds in order, and
none on any other line. -/
theorem exists_mark? (index : Int) : ∃ mark, s.mark? index span startLine endLine = .ok mark := by
  by_cases hout : index ≠ startLine ∧ index ≠ endLine
  · exact ⟨none, mark?_off_line hout⟩
  obtain ⟨i, rfl, hi⟩ := exists_natCast_of_bound hout
  obtain ⟨line, hline⟩ := exists_line (lt_length_of_bound h hi)
  obtain ⟨mark, hmark, _⟩ := mark?_on_line h hline hi
  exact ⟨some mark, hmark⟩

theorem localSpan_eq_mark? (index : Int) :
    s.localSpan index span = s.mark? index span startLine endLine := by
  rw [localSpan, h]
  rfl

theorem localSpan_eq_none_iff :
    s.localSpan index span = .ok none ↔ index ≠ startLine ∧ index ≠ endLine := by
  rw [localSpan_eq_mark? h]
  refine ⟨fun hnone => ?_, mark?_off_line⟩
  by_contra hin
  obtain ⟨i, rfl, hi⟩ := exists_natCast_of_bound hin
  obtain ⟨line, hline⟩ := exists_line (lt_length_of_bound h hi)
  obtain ⟨mark, hmark, _⟩ := mark?_on_line h hline hi
  cases hnone.symm.trans hmark

theorem exists_bound_of_localSpan (hpart : s.localSpan index span = .ok (some part)) :
    ∃ i : Nat, index = i ∧ (i = startLine ∨ i = endLine) := by
  refine exists_natCast_of_bound fun hout => ?_
  cases hpart.symm.trans ((localSpan_eq_none_iff h).mpr hout)

/-- The part of a span on a line is what the two have in common. -/
theorem localSpan_bounds (hline : s.lines[i]? = some line)
    (hpart : s.localSpan i span = .ok (some part)) :
    line.byteOffset + part.start = max line.byteOffset span.start ∧
      line.byteOffset + part.stop = min line.byteEnd span.stop := by
  obtain ⟨j, hj, hi⟩ := exists_bound_of_localSpan h hpart
  obtain rfl : i = j := Int.ofNat_inj.mp hj
  obtain ⟨mark, hmark, hstart, hstop⟩ := mark?_on_line h hline hi
  rw [localSpan_eq_mark? h] at hpart
  cases hpart.symm.trans hmark
  have hlines := startLine_le_endLine h
  constructor
  · by_cases hs : i = startLine
    · have hbounds := bounds_of_startLine h (hs ▸ hline)
      rw [hstart, if_pos hs]
      omega
    · have hafter := start_le_byteOffset h hline (by omega)
      rw [hstart, if_neg hs]
      omega
  · by_cases he : i = endLine
    · have hbounds := bounds_of_endLine h (he ▸ hline)
      rw [hstop, if_pos he]
      omega
    · have hbefore := byteEnd_le_stop h hline (by omega)
      rw [hstop, if_neg he]
      omega

theorem isPartOf_of_localSpan (hline : s.lines[i]? = some line)
    (hpart : s.localSpan i span = .ok (some part)) : line.IsPartOf part span := by
  obtain ⟨hstart, hstop⟩ := localSpan_bounds h hline hpart
  have hend : line.byteEnd = line.byteOffset + line.byteLen := rfl
  have hholds : ∀ x, part.Holds x ↔ x < line.byteLen ∧ span.Holds (line.byteOffset + x) := by
    intro x
    unfold Span.Holds
    omega
  refine ⟨hstart, hstop, by omega, hholds, fun hempty => ?_⟩
  by_contra hne
  obtain ⟨j, hj, hi⟩ := exists_bound_of_localSpan h hpart
  obtain rfl : i = j := Int.ofNat_inj.mp hj
  have hlines := startLine_le_endLine h
  have hspan := span.start_le_stop
  obtain ⟨b, ⟨hlow, hhigh⟩, hspanHolds⟩ :=
    meets_of_between h (by omega) hline (by omega) (by omega)
  have hshared : part.Holds (b - line.byteOffset) :=
    (hholds _).mpr ⟨by omega, by rwa [Nat.add_sub_cancel' hlow]⟩
  unfold Span.Holds at hshared
  omega

/-- What a span has on a line are the bytes that both hold. -/
theorem hasOn_iff (hline : s.lines[i]? = some line) :
    s.HasOn span startLine endLine i b ↔ line.Holds b ∧ span.Holds b := by
  have hend : line.byteEnd = line.byteOffset + line.byteLen := rfl
  constructor
  · rintro ⟨found, hfound, hbetween | ⟨part, x, hpart, hx, rfl⟩⟩
    · obtain ⟨hstart, hstop, hlow, hhigh⟩ := hbetween
      cases hline.symm.trans hfound
      have hafter := start_le_byteOffset h hline hstart
      have hbefore := byteEnd_le_stop h hline hstop
      exact ⟨⟨hlow, hhigh⟩, by omega, by omega⟩
    · cases hline.symm.trans hfound
      obtain ⟨hlt, hholds⟩ := ((isPartOf_of_localSpan h hline hpart).holds_iff x).mp hx
      exact ⟨⟨by omega, by omega⟩, hholds⟩
  · rintro ⟨hholds, hspan⟩
    have hne : span.start < span.stop := Nat.lt_of_le_of_lt hspan.1 hspan.2
    obtain ⟨hstart, hstop⟩ := (line_meets_iff h hne hline).mp ⟨b, hholds, hspan⟩
    by_cases hi : i = startLine ∨ i = endLine
    · obtain ⟨part, hpart, _⟩ := mark?_on_line h hline hi
      rw [← localSpan_eq_mark? h] at hpart
      obtain ⟨hlow, hhigh⟩ := hholds
      have hshared := ((isPartOf_of_localSpan h hline hpart).holds_iff (b - line.byteOffset)).mpr
        ⟨by omega, by rwa [Nat.add_sub_cancel' hlow]⟩
      exact ⟨line, hline, .inr ⟨part, _, hpart, hshared, Nat.add_sub_cancel' hlow⟩⟩
    · exact ⟨line, hline, .inl ⟨by omega, by omega, hholds⟩⟩

theorem span_holds_of_hasOn (hon : s.HasOn span startLine endLine i b) : span.Holds b := by
  obtain ⟨line, hline, _⟩ := id hon
  exact ((hasOn_iff h hline).mp hon).2

/-- Every byte of a span is in what the span has on one line. -/
theorem existsUnique_hasOn (hb : span.Holds b) : ∃! i, s.HasOn span startLine endLine i b := by
  have hstop := stop_le_byteLen h
  obtain ⟨i, line, _, hline, hholds, hunique⟩ :=
    lineAt_byte (s := s) (Nat.lt_of_lt_of_le hb.2 hstop)
  refine ⟨i, (hasOn_iff h hline).mpr ⟨hholds, hb⟩, fun j hj => ?_⟩
  obtain ⟨other, hother, _⟩ := id hj
  exact hunique j other hother ((hasOn_iff h hother).mp hj).1

end SpanLines

theorem localSpan_eq_error_iff {e : Error} : s.localSpan index span = .error e ↔
    s.byteLen < span.stop ∧ e = .spanOutside span (.pastEnd s.byteLen) := by
  rw [← spanLines_eq_error_iff, localSpan, bind_eq_error_iff]
  refine or_iff_left ?_
  rintro ⟨lines, hlines, herror⟩
  obtain ⟨mark, hmark⟩ := exists_mark? hlines index
  cases hmark.symm.trans herror

end Source

/-- A span that stops in a source has a part on its first and on its last line and none on any other. The
part is what the span and the line have in common, empty only if the span is. All these parts and the lines
in between hold the bytes of the span, each of them once. A span that stops past the end has no parts. -/
theorem parts_of_span (s : Source) (span : Span) :
    (∀ (index : Int) e, s.localSpan index span = .error e ↔
      s.byteLen < span.stop ∧ e = .spanOutside span (.pastEnd s.byteLen)) ∧
    (span.stop ≤ s.byteLen → ∃ startLine endLine, s.spanLines span = .ok (startLine, endLine) ∧
      (∀ index : Int, s.localSpan index span = .ok none ↔ index ≠ startLine ∧ index ≠ endLine) ∧
      (∀ index part, s.localSpan index span = .ok (some part) →
        ∃ line, s.line index = .ok line ∧ line.IsPartOf part span) ∧
      (∀ i b, s.HasOn span startLine endLine i b → span.Holds b) ∧
      ∀ b, span.Holds b → ∃! i, s.HasOn span startLine endLine i b) := by
  refine ⟨fun index e => Source.localSpan_eq_error_iff, fun hstop => ?_⟩
  obtain ⟨startLine, endLine, h⟩ := Source.exists_spanLines hstop
  refine ⟨startLine, endLine, h, fun index => Source.localSpan_eq_none_iff h, ?_,
    fun i b => Source.span_holds_of_hasOn h, fun b => Source.existsUnique_hasOn h⟩
  intro index part hpart
  obtain ⟨i, rfl, hi⟩ := Source.exists_bound_of_localSpan h hpart
  obtain ⟨line, hline⟩ := Source.exists_line (Source.lt_length_of_bound h hi)
  exact ⟨line, Source.line_eq_ok_iff.mpr hline, Source.isPartOf_of_localSpan h hline hpart⟩

end Callout

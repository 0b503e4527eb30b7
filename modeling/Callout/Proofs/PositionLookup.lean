import Callout.Proofs.LineTable

namespace Callout

/-- Whether a byte is one of a span. -/
def Span.Holds (s : Span) (b : Nat) : Prop :=
  s.start ≤ b ∧ b < s.stop

/-- Whether a byte is one of a line. -/
def Line.Holds (line : Line) (b : Nat) : Prop :=
  line.byteOffset ≤ b ∧ b < line.byteEnd

/-- Whether a line and a span have a byte in common. -/
def Line.Meets (line : Line) (span : Span) : Prop :=
  ∃ b, line.Holds b ∧ span.Holds b

/-- The first and the last line of a span: those of its first and its last byte, with all lines in between
that have bytes of it. A span without bytes is on one line. -/
structure Source.Reaches (s : Source) (span : Span) (startLine endLine : Nat) : Prop where
  ordered : startLine ≤ endLine
  empty : span.start = span.stop → startLine = endLine
  first : span.start < span.stop → ∃ line, s.lines[startLine]? = some line ∧ line.Holds span.start
  last : span.start < span.stop → ∃ line, s.lines[endLine]? = some line ∧ line.Holds (span.stop - 1)
  meets_iff : span.start < span.stop → ∀ i line, s.lines[i]? = some line →
    (line.Meets span ↔ startLine ≤ i ∧ i ≤ endLine)

namespace Source

variable {s : Source} {span : Span} {b i startLine endLine : Nat} {line : Line}

theorem onLine_of_holds (hline : s.lines[i]? = some line) (h : line.Holds b) : s.OnLine b i :=
  ⟨line, hline, h.1, .inl h.2⟩

theorem OnLine.holds (h : s.OnLine b i) (hline : s.lines[i]? = some line) (hlt : b < s.byteLen) :
    line.Holds b :=
  ⟨h.byteOffset_le hline, h.lt_byteEnd hline hlt⟩

theorem lineAt_eq_error_iff {position : Int} :
    s.lineAt position = .error (.positionOutside position s.byteLen) ↔
      position < 0 ∨ s.byteLen < position := by
  unfold lineAt
  split
  next hin => exact iff_of_false (by simp) (by omega)
  next hout => exact iff_of_true rfl (by omega)

/-- Only a position in the source, or its end, is on a line. -/
theorem exists_onLine_of_lineAt {position : Int} (h : s.lineAt position = .ok i) :
    ∃ p : Nat, position = p ∧ s.OnLine p i := by
  have hin : 0 ≤ position := by
    by_contra hneg
    rw [lineAt_eq_error_iff.mpr (by omega)] at h
    cases h
  obtain ⟨p, rfl⟩ := Int.eq_ofNat_of_zero_le hin
  exact ⟨p, rfl, lineAt_eq_ok_iff.mp h⟩

theorem lineAt_mono {p q : Int} {j : Nat} (hle : p ≤ q) (hp : s.lineAt p = .ok i)
    (hq : s.lineAt q = .ok j) : i ≤ j := by
  obtain ⟨p, rfl, hpon⟩ := exists_onLine_of_lineAt hp
  obtain ⟨q, rfl, hqon⟩ := exists_onLine_of_lineAt hq
  exact hpon.le_of_le hqon (Int.ofNat_le.mp hle)

theorem lineAt_byte (h : b < s.byteLen) : ∃ i line, s.lineAt b = .ok i ∧ s.lines[i]? = some line ∧
    line.Holds b ∧ ∀ j other, s.lines[j]? = some other → other.Holds b → j = i := by
  obtain ⟨i, hat, hon⟩ := exists_lineAt (Nat.le_of_lt h)
  obtain ⟨line, hline⟩ := exists_line hon.lt_length
  exact ⟨i, line, hat, hline, hon.holds hline h,
    fun j other hother hholds => (onLine_of_holds hother hholds).unique hon⟩

theorem lineAt_byteLen (s : Source) :
    ∃ i, i + 1 = s.lines.length ∧ s.lineAt s.byteLen = .ok i := by
  have hpos := s.lines_length_pos
  have hlast : s.lines.length - 1 + 1 = s.lines.length := by omega
  obtain ⟨line, hline⟩ := exists_line (show s.lines.length - 1 < s.lines.length by omega)
  have hend := lines_last_byteEnd hline (by omega)
  have hoffset : line.byteOffset ≤ line.byteEnd := Nat.le_add_right _ _
  exact ⟨_, hlast, lineAt_eq_ok_iff.mpr ⟨line, hline, by omega, .inr ⟨hlast, rfl⟩⟩⟩

theorem spanLines_eq_error_iff {e : Error} : s.spanLines span = .error e ↔
    s.byteLen < span.stop ∧ e = .spanOutside span (.pastEnd s.byteLen) := by
  by_cases hlt : s.byteLen < span.stop
  · simp [spanLines_error hlt, hlt, eq_comm]
  · obtain ⟨startLine, endLine, hok⟩ := exists_spanLines (Nat.not_lt.mp hlt)
    simp [hok, hlt]

section SpanLines

variable (h : s.spanLines span = .ok (startLine, endLine))
include h

theorem stop_le_byteLen : span.stop ≤ s.byteLen :=
  (spanLines_eq_ok_iff.mp h).1

theorem start_onLine : s.OnLine span.start startLine :=
  (spanLines_eq_ok_iff.mp h).2.1

theorem last_onLine : s.OnLine (max span.start (span.stop - 1)) endLine :=
  (spanLines_eq_ok_iff.mp h).2.2

theorem startLine_le_endLine : startLine ≤ endLine :=
  (start_onLine h).le_of_le (last_onLine h) (Nat.le_max_left _ _)

theorem startLine_eq_endLine (hempty : span.start = span.stop) : startLine = endLine := by
  have hlast := last_onLine h
  rw [Nat.max_eq_left (by omega)] at hlast
  exact (start_onLine h).unique hlast

theorem first_holds (hne : span.start < span.stop) (hline : s.lines[startLine]? = some line) :
    line.Holds span.start := by
  have hstop := stop_le_byteLen h
  exact (start_onLine h).holds hline (by omega)

theorem last_holds (hne : span.start < span.stop) (hline : s.lines[endLine]? = some line) :
    line.Holds (span.stop - 1) := by
  have hstop := stop_le_byteLen h
  have hlast := last_onLine h
  rw [Nat.max_eq_right (by omega)] at hlast
  exact hlast.holds hline (by omega)

theorem bounds_of_startLine (hline : s.lines[startLine]? = some line) :
    line.byteOffset ≤ span.start ∧ span.start ≤ line.byteEnd :=
  ⟨(start_onLine h).byteOffset_le hline, (start_onLine h).le_byteEnd hline⟩

theorem bounds_of_endLine (hline : s.lines[endLine]? = some line) :
    line.byteOffset ≤ span.stop ∧ span.stop ≤ line.byteEnd := by
  rcases Nat.lt_or_eq_of_le span.start_le_stop with hne | hempty
  · obtain ⟨hlow, hhigh⟩ := last_holds h hne hline
    omega
  · have hsame := startLine_eq_endLine h hempty
    rw [← hempty]
    exact bounds_of_startLine h (hsame ▸ hline)

theorem start_le_byteOffset (hline : s.lines[i]? = some line) (hlt : startLine < i) :
    span.start ≤ line.byteOffset := by
  obtain ⟨first, hfirst⟩ := exists_line (start_onLine h).lt_length
  exact Nat.le_trans (bounds_of_startLine h hfirst).2 (lines_byteEnd_le hfirst hline hlt)

theorem byteEnd_le_stop (hline : s.lines[i]? = some line) (hlt : i < endLine) :
    line.byteEnd ≤ span.stop := by
  obtain ⟨last, hlast⟩ := exists_line (last_onLine h).lt_length
  exact Nat.le_trans (lines_byteEnd_le hline hlast hlt) (bounds_of_endLine h hlast).1

/-- A line between the first and the last of a span has a byte of it: the span's first byte, or, as the
line is not empty, its own. -/
theorem meets_of_between (hne : span.start < span.stop) (hline : s.lines[i]? = some line)
    (hstart : startLine ≤ i) (hend : i ≤ endLine) : line.Meets span := by
  rcases Nat.lt_or_eq_of_le hstart with hlt | rfl
  · have hafter := start_le_byteOffset h hline hlt
    have hown : line.byteOffset < line.byteEnd ∧ line.byteOffset < span.stop := by
      rcases Nat.lt_or_eq_of_le hend with hbefore | rfl
      · have hstop := byteEnd_le_stop h hline hbefore
        have hlength := lines_byteLen_pos hline
          (Nat.lt_of_le_of_lt hbefore (last_onLine h).lt_length)
        have hbyteEnd : line.byteEnd = line.byteOffset + line.byteLen := rfl
        omega
      · obtain ⟨hlow, hhigh⟩ := last_holds h hne hline
        omega
    exact ⟨line.byteOffset, ⟨Nat.le_refl _, hown.1⟩, hafter, hown.2⟩
  · exact ⟨span.start, first_holds h hne hline, Nat.le_refl _, hne⟩

theorem line_meets_iff (hne : span.start < span.stop) (hline : s.lines[i]? = some line) :
    line.Meets span ↔ startLine ≤ i ∧ i ≤ endLine := by
  constructor
  · rintro ⟨b, hholds, hstart, hstop⟩
    have hon := onLine_of_holds hline hholds
    exact ⟨(start_onLine h).le_of_le hon hstart, hon.le_of_le (last_onLine h) (by omega)⟩
  · rintro ⟨hstart, hend⟩
    exact meets_of_between h hne hline hstart hend

theorem reaches_of_spanLines : s.Reaches span startLine endLine := by
  obtain ⟨first, hfirst⟩ := exists_line (start_onLine h).lt_length
  obtain ⟨last, hlast⟩ := exists_line (last_onLine h).lt_length
  exact ⟨startLine_le_endLine h, startLine_eq_endLine h,
    fun hne => ⟨first, hfirst, first_holds h hne hfirst⟩,
    fun hne => ⟨last, hlast, last_holds h hne hlast⟩,
    fun hne i line hline => line_meets_iff h hne hline⟩

end SpanLines

end Source

/-- A position is looked up unless it is negative or past the end: a byte on the one line that holds it,
the end of the source on the last line, and later positions on no earlier lines. A span is looked up
unless it stops past the end, on the lines that it reaches from and to. -/
theorem position_lookup (s : Source) :
    (∀ position : Int, s.lineAt position = .error (.positionOutside position s.byteLen) ↔
      position < 0 ∨ s.byteLen < position) ∧
    (∀ b : Nat, b < s.byteLen → ∃ i line, s.lineAt b = .ok i ∧ s.lines[i]? = some line ∧
      line.Holds b ∧ ∀ j other, s.lines[j]? = some other → other.Holds b → j = i) ∧
    (∃ i, i + 1 = s.lines.length ∧ s.lineAt s.byteLen = .ok i) ∧
    (∀ (p q : Int) (i j : Nat), p ≤ q → s.lineAt p = .ok i → s.lineAt q = .ok j → i ≤ j) ∧
    ∀ span : Span,
      (∀ e, s.spanLines span = .error e ↔
        s.byteLen < span.stop ∧ e = .spanOutside span (.pastEnd s.byteLen)) ∧
      (span.stop ≤ s.byteLen → ∃ startLine endLine,
        s.spanLines span = .ok (startLine, endLine) ∧ s.Reaches span startLine endLine) := by
  refine ⟨fun position => Source.lineAt_eq_error_iff, fun b => Source.lineAt_byte,
    s.lineAt_byteLen, fun p q i j => Source.lineAt_mono, fun span => ⟨fun e => ?_, fun hstop => ?_⟩⟩
  · exact Source.spanLines_eq_error_iff
  · obtain ⟨startLine, endLine, hlines⟩ := Source.exists_spanLines hstop
    exact ⟨startLine, endLine, hlines, Source.reaches_of_spanLines hlines⟩

end Callout

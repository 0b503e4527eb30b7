import Callout.Proofs.ShiftedRows

namespace Callout

/-- The row that opens the frame and names a place in a source. -/
def borderRow (id : SourceId) (locus : Locus) : Row :=
  ⟨.border, Cell.plain s!"{id.shown}:{locus.line}:{locus.column}"⟩

def Locus.shift (k : Nat) (locus : Locus) : Locus :=
  { locus with line := locus.line + k }

namespace Placement

variable {p q : Placement} {n k : Nat} (h : IsShift n k p q)
include h

/-- Lines further down are drawn one after the other as the lines themselves are. -/
theorem IsShift.blocks_eq (config : Config) (previous : Option Nat) {done lines : List Nat}
    (hsplit : p.relevantLines = done ++ lines) :
    (q.blocks config (previous.map (· + k)) (lines.map (· + k))
        (q.reached (lines.map (· + k)))).rows =
      carry n (List.map (Row.shift k)) (p.blocks config previous lines (p.reached lines)).rows := by
  induction lines generalizing done previous with
  | nil => rfl
  | cons line lines ih =>
    have hline : line ∈ p.relevantLines := by simp [hsplit]
    have hnext : p.relevantLines = done ++ [line] ++ lines := by
      rw [hsplit, List.append_assoc, List.cons_append, List.nil_append]
    have hsplit' : q.relevantLines = done.map (· + k) ++ (line + k) :: lines.map (· + k) := by
      rw [h.relevantLines_eq, hsplit, List.map_append, List.map_cons]
    have hskips : ((previous.map (· + k)).any fun l => line + k != l + 1) =
        previous.any fun l => line != l + 1 := by
      rw [Option.any_map]
      congr 1
      funext l
      rw [Bool.eq_iff_iff, bne_iff_ne, bne_iff_ne]
      omega
    obtain ⟨gap, hgap, hbare⟩ := p.gap_shown line
      (config.ellipsis && previous.any fun l => line != l + 1)
    have hgap' := hgap
    rw [← h.gapRow_eq, ← h.openBy_eq] at hgap'
    have hgapRows : gap.map (Row.shift k) = gap := by
      rcases hbare with rfl | ⟨row, rfl, _, hrow⟩
      · rfl
      · rw [List.map_singleton, Row.shift_of_line? k (by rw [hrow.role_eq]; rfl)]
    have hrest := ih (some line) hnext
    rw [← openPast_eq_reached hsplit, ← openPast_eq_reached hsplit', Option.map_some] at hrest
    rw [List.map_cons, blocks, blocks, reached, reached, hskips, hgap, hgap']
    rcases h.block_eq config hline with ⟨rows, hb, hb'⟩ | ⟨e, he, he'⟩
    · simp only [hb, hb', hrest]
      cases (p.blocks config (some line) lines (p.openPast line)).rows with
      | error e => rfl
      | ok more =>
        simp only [carry_ok, Except.map, List.map_append, hgapRows]
    · simp only [he, he']
      rfl

theorem IsShift.content_eq (config : Config) : (q.content config []).rows =
    carry n (List.map (Row.shift k)) (p.content config []).rows := by
  have hblocks := h.blocks_eq config none (List.nil_append p.relevantLines).symm
  rw [← h.relevantLines_eq, reached_relevantLines, reached_relevantLines] at hblocks
  exact hblocks

theorem IsShift.locus_eq : q.locus = carry n (Locus.shift k) p.locus := by
  cases hlabels : p.labels with
  | nil =>
    have hlabels' := h.labels_eq
    rw [hlabels] at hlabels'
    simp only [locus, hlabels, hlabels', List.map_nil]
    rfl
  | cons first rest =>
    have hlabels' := h.labels_eq
    rw [hlabels, List.map_cons] at hlabels'
    have hfirst : first ∈ p.labels := by simp [hlabels]
    have hi : first.startLine ∈ p.relevantLines := mem_relevantLines_iff.mpr ⟨_, hfirst, .inl rfl⟩
    obtain ⟨line, hline⟩ := Source.exists_line (startLine_lt_length hfirst)
    obtain ⟨line', hline', hoffset, hlen⟩ := h.source.line _ line hline
    obtain ⟨hlow, hhigh⟩ := bounds_of_startLine hfirst hline
    rw [Line.byteEnd] at hhigh
    have htext := h.textBetween hi hline hline' hoffset hlen
      (Nat.zero_le (first.label.span.start - line.byteOffset)) (by omega)
    have hstart : line.byteOffset + (first.label.span.start - line.byteOffset) =
        first.label.span.start := by omega
    have hstart' : line'.byteOffset + (first.label.span.start - line.byteOffset) =
        (first.shift n k).label.span.start := by
      simp only [Placed.shift, Label.shift, Span.shift]
      omega
    rw [hstart, hstart', Nat.add_zero, Nat.add_zero] at htext
    simp only [locus, hlabels, hlabels']
    rw [Placement.locus_eq hfirst hline, Placement.locus_eq (h.mem_labels hfirst) hline', htext]
    cases p.source.textBetween line.byteOffset first.label.span.start with
    | error e => rfl
    | ok before =>
      simp only [carry_ok, Except.map, Locus.shift, Placed.shift, id_eq, Nat.add_right_comm]

end Placement

namespace Canvas

variable {p q : Placement} {n k : Nat}

theorem border_eq_locus (d : Diagnostic) (p : Placement) :
    (⟨d, some p⟩ : Canvas).border = p.locus.map (borderRow d.sourceId) := by
  have hlocus : (⟨d, some p⟩ : Canvas).locus = p.locus := rfl
  rw [border, hlocus]
  cases p.locus <;> rfl

/-- The rows of a report from its border and the rows of its lines. -/
def frame (d : Diagnostic) (border : Row) (content : List Row) : List Row :=
  [header ⟨d, none⟩, border] ++ content ++ [emptyRow] ++ notes ⟨d, none⟩ ++ [footer]

theorem rows_eq_frame (d : Diagnostic) (p : Placement) : (⟨d, some p⟩ : Canvas).rows =
    p.locus >>= fun locus => (p.content d.config []).rows.map (frame d (borderRow d.sourceId locus)) := by
  have hcontent : (⟨d, some p⟩ : Canvas).content [] = p.content d.config [] := rfl
  simp only [rows, border_eq_locus, hcontent]
  cases p.locus with
  | error e => rfl
  | ok locus => cases (p.content d.config []).rows <;> rfl

/-- A report further down has the same rows, with a border that names a line further down, or there is
none, for the same cause. -/
theorem rows_shift (h : Placement.IsShift n k p q) (d : Diagnostic) :
    (∃ locus content, p.locus = .ok locus ∧ (p.content d.config []).rows = .ok content ∧
      (⟨d, some p⟩ : Canvas).rows = .ok (frame d (borderRow d.sourceId locus) content) ∧
      (⟨d.shift n, some q⟩ : Canvas).rows =
        .ok (frame d (borderRow d.sourceId (locus.shift k)) (content.map (Row.shift k)))) ∨
    ∃ e, (⟨d, some p⟩ : Canvas).rows = .error e ∧
      (⟨d.shift n, some q⟩ : Canvas).rows = .error (e.shift n) := by
  have hrows := rows_eq_frame d p
  have hrows' := rows_eq_frame (d.shift n) q
  have hconfig : (d.shift n).config = d.config := rfl
  rw [hconfig, h.locus_eq, h.content_eq] at hrows'
  cases hlocus : p.locus with
  | error e =>
    rw [hlocus] at hrows hrows'
    exact .inr ⟨e, hrows, hrows'⟩
  | ok locus =>
    rw [hlocus] at hrows hrows'
    cases hcontent : (p.content d.config []).rows with
    | error e =>
      rw [hcontent] at hrows hrows'
      exact .inr ⟨e, hrows, hrows'⟩
    | ok content =>
      rw [hcontent] at hrows hrows'
      exact .inl ⟨locus, content, rfl, rfl, hrows, hrows'⟩

end Canvas

section Report

variable {catalog catalog' : Catalog} {d : Diagnostic} {s t : Source} {n k : Nat}

theorem Placement.isShift_of_slices {p q : Placement} (h : s.IsShift n k t) (hp : p.source = s)
    (hq : q.source = t) (hlabels : q.labels = p.labels.map (Placed.shift n k))
    (hslices : ∀ l ∈ p.labels, t.lineSlice (l.startLine + k : Nat) = s.lineSlice l.startLine ∧
      t.lineSlice (l.endLine + k : Nat) = s.lineSlice l.endLine) : Placement.IsShift n k p q := by
  subst hp hq
  refine ⟨h, hlabels, fun i hi => ?_⟩
  obtain ⟨l, hl, rfl | rfl⟩ := Placement.mem_relevantLines_iff.mp hi
  · exact (hslices l hl).1
  · exact (hslices l hl).2

/-- A diagnostic on a source and the same one further down, on a source in which everything stands
further down: both are placed and have the rows of one another, or both are refused for one cause. Of
the texts of the two sources only the lines that hold a start or an end of a label have to agree. -/
theorem report_shift (hlabels : d.labels ≠ []) (hs : catalog.find? d.sourceId = some s)
    (ht : catalog'.find? d.sourceId = some t) (h : s.IsShift n k t)
    (hslices : ∀ label ∈ d.labels, ∀ first last : Nat, s.spanLines label.span = .ok (first, last) →
      t.lineSlice (first + k : Nat) = s.lineSlice first ∧
        t.lineSlice (last + k : Nat) = s.lineSlice last) :
    (∃ p q locus content, Canvas.ofDiagnostic catalog d = .ok ⟨d, some p⟩ ∧
      Canvas.ofDiagnostic catalog' (d.shift n) = .ok ⟨d.shift n, some q⟩ ∧
      Placement.IsShift n k p q ∧ (p.content d.config []).rows = .ok content ∧
      (⟨d, some p⟩ : Canvas).rows = .ok (Canvas.frame d (borderRow d.sourceId locus) content) ∧
      (⟨d.shift n, some q⟩ : Canvas).rows = .ok
        (Canvas.frame d (borderRow d.sourceId (locus.shift k)) (content.map (Row.shift k)))) ∨
    ∃ e, render catalog d = .error e ∧ render catalog' (d.shift n) = .error (e.shift n) := by
  have hlabels' : (d.shift n).labels ≠ [] := fun hnil => hlabels (List.map_eq_nil_iff.mp hnil)
  rcases Placement.ofLabels_shift h d.labels with ⟨p, q, hp, hq, hplaced⟩ | ⟨e, hp, hq⟩
  · obtain ⟨hpsource, hplabels⟩ := Placement.ofLabels_eq_ok hp
    have hshift : Placement.IsShift n k p q := by
      refine Placement.isShift_of_slices h hpsource (Placement.ofLabels_eq_ok hq).1 hplaced fun l hl => ?_
      have hmem : l.label ∈ d.labels := by
        rw [← Placement.mem_sortLabels, ← hplabels]
        exact List.mem_map_of_mem hl
      exact hslices l.label hmem _ _ (hpsource ▸ p.lines_eq l hl)
    rcases Canvas.rows_shift hshift d with ⟨locus, content, _, hcontent, hrows, hrows'⟩ | ⟨e, he, he'⟩
    · left
      exact ⟨p, q, locus, content,
        (Canvas.ofDiagnostic_eq_ok hlabels).mpr ⟨s, p, hs, hp, rfl⟩,
        (Canvas.ofDiagnostic_eq_ok hlabels').mpr ⟨t, q, ht, hq, rfl⟩, hshift, hcontent, hrows,
        hrows'⟩
    · right
      refine ⟨e, ?_, ?_⟩
      · rw [render_of_rows hlabels hs hp, he]
        rfl
      · rw [render_of_rows hlabels' ht hq, he']
        rfl
  · right
    exact ⟨e, render_of_refused hlabels hs hp, render_of_refused hlabels' ht hq⟩

end Report

end Callout

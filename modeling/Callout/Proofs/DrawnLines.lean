import Callout.Layout.Report
import Callout.Proofs.DrawnBlock
import Callout.Proofs.LocusCoordinates

namespace Callout

namespace Placement

variable {p : Placement}

/-- What is drawn for a line: a gap row or none, and the block of the line. -/
def IsChunk (p : Placement) (config : Config) (line : Nat) (chunk : List Row) : Prop :=
  ∃ gap, ∃ b : LineBlock p config line, chunk = gap ++ b.rows ∧
    (gap = [] ∨ ∃ row, gap = [row] ∧ p.gapRow (p.openBy line) = .ok row ∧ row.IsBare .gap)

theorem IsChunk.mem_cases {config : Config} {line : Nat} {chunk : List Row} {row : Row}
    (h : p.IsChunk config line chunk) (hrow : row ∈ chunk) :
    row.IsBare .gap ∨ ∃ b : LineBlock p config line, row ∈ b.rows := by
  obtain ⟨gap, b, rfl, hgap⟩ := h
  rcases List.mem_append.mp hrow with hrow | hrow
  · rcases hgap with rfl | ⟨gapRow, rfl, _, hbare⟩
    · cases hrow
    · exact .inl (List.mem_singleton.mp hrow ▸ hbare)
  · exact .inr ⟨b, hrow⟩

theorem lt_length_of_mem_relevantLines {line : Nat} (h : line ∈ p.relevantLines) :
    line < p.source.lines.length := by
  obtain ⟨l, hl, rfl | rfl⟩ := mem_relevantLines_iff.mp h
  · exact startLine_lt_length hl
  · exact endLine_lt_length hl

theorem gapRow_shown (p : Placement) (line : Nat) :
    ∃ row, p.gapRow (p.openBy line) = .ok row ∧ row.IsBare .gap := by
  have hfits : ∀ e ∈ p.openBy line, 2 * e.slot < p.marginWidth := openList_fits
  obtain ⟨lead, hlead, _, hpainted⟩ := margin_painted hfits
  refine ⟨⟨.gap, trimBlanks lead⟩, ?_, rfl, fun c hc => hpainted.frame c (mem_trimBlanks hc)⟩
  rw [gapRow, hlead]
  rfl

theorem gap_shown (p : Placement) (line : Nat) (skips : Bool) :
    ∃ gap, (if skips then (p.gapRow (p.openBy line)).map fun row => [row] else .ok []) = .ok gap ∧
      (gap = [] ∨ ∃ row, gap = [row] ∧ p.gapRow (p.openBy line) = .ok row ∧ row.IsBare .gap) := by
  cases skips with
  | false => exact ⟨[], rfl, .inl rfl⟩
  | true =>
    obtain ⟨row, hrow, hbare⟩ := p.gapRow_shown line
    refine ⟨[row], ?_, .inr ⟨row, rfl, hrow, hbare⟩⟩
    rw [if_pos rfl, hrow]
    rfl

/-- Neighbouring relevant lines are drawn when the labels on them are aligned. -/
theorem blocks_of_alignedOn (config : Config) (previous : Option Nat) {done lines rest : List Nat}
    (h : p.relevantLines = done ++ lines ++ rest) (haligned : ∀ line ∈ lines, p.AlignedOn line) :
    ∃ chunks, p.blocks config previous lines (p.reached (lines ++ rest)) =
        ⟨p.reached rest, .ok chunks.flatten⟩ ∧
      List.Forall₂ (p.IsChunk config) lines chunks := by
  induction lines generalizing done previous with
  | nil => exact ⟨[], rfl, .nil⟩
  | cons line lines ih =>
    have hnext : p.relevantLines = done ++ [line] ++ lines ++ rest := by
      rw [h]
      simp only [List.append_assoc, List.cons_append, List.nil_append]
    have hsplit : p.relevantLines = done ++ line :: (lines ++ rest) := by
      rw [h, List.append_assoc, List.cons_append]
    have hline : line < p.source.lines.length := lt_length_of_mem_relevantLines (by simp [h])
    obtain ⟨b, hb⟩ := block_of_alignedOn config hline (haligned line (by simp))
    obtain ⟨gap, hgap, hbare⟩ := p.gap_shown line
      (config.ellipsis && previous.any fun l => line != l + 1)
    obtain ⟨chunks, hchunks, hall⟩ := ih (some line) hnext
      fun next hnext => haligned next (by simp [hnext])
    refine ⟨(gap ++ b.rows) :: chunks, ?_, .cons ⟨gap, b, rfl, hbare⟩ hall⟩
    rw [blocks, List.cons_append, reached, hgap, hb, openPast_eq_reached hsplit]
    simp only [hchunks, Except.map, List.flatten_cons]

theorem blocks_of_not_alignedOn (config : Config) (previous : Option Nat) {done lines : List Nat}
    (h : p.relevantLines = done ++ lines) (hnot : ¬∀ line ∈ lines, p.AlignedOn line) :
    ∃ span, (p.blocks config previous lines (p.reached lines)).rows =
      .error (.spanOutside span .misaligned) := by
  induction lines generalizing done previous with
  | nil => exact absurd (by simp) hnot
  | cons line lines ih =>
    have hline : line < p.source.lines.length := lt_length_of_mem_relevantLines (by simp [h])
    obtain ⟨gap, hgap, _⟩ := p.gap_shown line
      (config.ellipsis && previous.any fun l => line != l + 1)
    by_cases haligned : p.AlignedOn line
    · obtain ⟨b, hb⟩ := block_of_alignedOn config hline haligned
      have hrest : ¬∀ next ∈ lines, p.AlignedOn next := by
        intro hall
        refine hnot fun next hnext => ?_
        rcases List.mem_cons.mp hnext with rfl | hnext
        · exact haligned
        · exact hall next hnext
      have hnext : p.relevantLines = done ++ [line] ++ lines := by
        rw [h, List.append_assoc, List.cons_append, List.nil_append]
      obtain ⟨span, hspan⟩ := ih (some line) hnext hrest
      refine ⟨span, ?_⟩
      rw [blocks, reached, hgap, hb, openPast_eq_reached h]
      simp only [hspan, Except.map]
    · obtain ⟨span, hspan⟩ := block_of_not_alignedOn config hline haligned
      refine ⟨span, ?_⟩
      rw [blocks, reached, hgap]
      simp only [hspan]

/-- All labels start and stop at boundaries of characters. -/
def Aligned (p : Placement) : Prop :=
  ∀ l ∈ p.labels, IsBoundary p.source.text l.label.span.start ∧
    IsBoundary p.source.text l.label.span.stop

theorem aligned_iff : p.Aligned ↔ ∀ line ∈ p.relevantLines, p.AlignedOn line := by
  constructor
  · intro hall line _ l hl
    exact ⟨fun _ => (hall l hl).1, fun _ => (hall l hl).2⟩
  · intro haligned l hl
    have hstart := haligned l.startLine (mem_relevantLines_iff.mpr ⟨l, hl, .inl rfl⟩) l hl
    have hstop := haligned l.endLine (mem_relevantLines_iff.mpr ⟨l, hl, .inr rfl⟩) l hl
    exact ⟨hstart.1 rfl, hstop.2 rfl⟩

theorem locus_eq {l : Placed} {line : Line} (hl : l ∈ p.labels)
    (hline : p.source.lines[l.startLine]? = some line) :
    p.source.locus l.label.span =
      (p.source.textBetween line.byteOffset l.label.span.start).map fun before =>
        ⟨l.startLine + 1, before.length⟩ :=
  Source.locus_eq (stop_le_byteLen hl) (start_onLine hl) hline

theorem locus_of_isBoundary {l : Placed} (hl : l ∈ p.labels)
    (h : IsBoundary p.source.text l.label.span.start) :
    ∃ locus, p.source.locus l.label.span = .ok locus := by
  obtain ⟨_, _, _, _, _, _, _, _, hlocus⟩ := Source.locus_of_isBoundary (stop_le_byteLen hl) h
  exact ⟨_, hlocus⟩

theorem locus_of_not_isBoundary {l : Placed} (hl : l ∈ p.labels)
    (h : ¬IsBoundary p.source.text l.label.span.start) :
    ∃ span, p.source.locus l.label.span = .error (.spanOutside span .misaligned) :=
  Source.locus_of_not_isBoundary (stop_le_byteLen hl) h

end Placement

end Callout

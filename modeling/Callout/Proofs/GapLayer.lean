import Callout.Proofs.LineColors
import Callout.Proofs.StackedBlocks
import Callout.Proofs.UnderlineLayer

namespace Callout

/-- Rows without those that stand for lines left out. -/
def withoutGaps (rows : List Row) : List Row :=
  rows.filter fun row => row.role ≠ .gap

theorem withoutGaps_append (rows more : List Row) :
    withoutGaps (rows ++ more) = withoutGaps rows ++ withoutGaps more :=
  List.filter_append ..

theorem withoutGaps_eq_self {rows : List Row} (h : ∀ row ∈ rows, row.role ≠ .gap) :
    withoutGaps rows = rows :=
  List.filter_eq_self.mpr fun row hrow => decide_eq_true (h row hrow)

theorem withoutGaps_eq_nil {rows : List Row} (h : ∀ row ∈ rows, row.role = .gap) :
    withoutGaps rows = [] :=
  List.filter_eq_nil_iff.mpr fun row hrow hkept => of_decide_eq_true hkept (h row hrow)

/-- Gap rows are left out before underlines are taken away, or after. -/
theorem withoutGaps_anchorsOnly (width : Nat) (rows : List Row) :
    withoutGaps (rows.map (Row.anchorsOnly width)) =
      (withoutGaps rows).map (Row.anchorsOnly width) := by
  rw [withoutGaps, List.filter_map, withoutGaps]
  congr 2
  funext row
  rw [Function.comp_apply, Row.anchorsOnly_role]

namespace Placement

/-- A label of several lines that starts at or before one line and ends at or after another. -/
def Spans (p : Placement) (above below i : Nat) (l : Placed) : Prop :=
  p.labels[i]? = some l ∧ l.isMultiline = true ∧ l.startLine ≤ above ∧ below ≤ l.endLine

/-- A gap row that shows the connectors of the labels that span two lines, each in its own column, and
nothing else. -/
structure IsGapBetween (p : Placement) (above below : Nat) (row : Row) : Prop where
  role_eq : row.role = .gap
  trimmed : trimBlanks row.body = row.body
  shows_iff : ∀ column cell, cell ≠ .blank → (row.body[column]? = some cell ↔
    ∃ i l, p.Spans above below i l ∧ column = 2 * p.slotOf i ∧ cell = .drawn .vbar l.label.color)
  apart : ∀ i j l m, p.Spans above below i l → p.Spans above below j m →
    p.slotOf i = p.slotOf j → i = j

/-- The blocks of lines one below the other, with a gap row between two of them when there are lines in
between, and nowhere else. -/
inductive Interleaves (p : Placement) (block : Nat → List Row) : List Nat → List Row → Prop where
  | nil : p.Interleaves block [] []
  | last (line : Nat) : p.Interleaves block [line] (block line)
  | next {above below : Nat} {rest : List Nat} {rows : List Row} (hnext : below = above + 1)
      (h : p.Interleaves block (below :: rest) rows) :
      p.Interleaves block (above :: below :: rest) (block above ++ rows)
  | gap {above below : Nat} {rest : List Nat} {rows : List Row} {gap : Row}
      (hskip : above + 1 < below) (hgap : p.IsGapBetween above below gap)
      (h : p.Interleaves block (below :: rest) rows) :
      p.Interleaves block (above :: below :: rest) (block above ++ gap :: rows)

variable {p : Placement} {config : Config}

theorem lt_of_relevantLines {done rest : List Nat} {above below : Nat}
    (h : p.relevantLines = done ++ above :: below :: rest) : above < below := by
  have hincreasing := p.relevantLines_increasing
  rw [h, List.pairwise_append] at hincreasing
  exact (List.pairwise_cons.mp hincreasing.2.1).1 below (by simp)

/-- Between two lines that are drawn one after the other, those labels are open that span both. -/
theorem mem_openBy_iff_spans {done rest : List Nat} {above below : Nat}
    (h : p.relevantLines = done ++ above :: below :: rest) {e : OpenLabel} :
    e ∈ p.openBy below ↔ ∃ i l, p.Spans above below i l ∧ e = p.entry i l := by
  have hlt := lt_of_relevantLines h
  constructor
  · intro he
    have hpast : e ∈ p.openPast above := by rwa [openPast_eq_openBy h]
    obtain ⟨i, l, hl, hm, hkeep, rfl⟩ := mem_openList_iff.mp he
    obtain ⟨j, m, hj, _, hkeep', heq⟩ := mem_openList_iff.mp hpast
    obtain rfl : i = j := congrArg OpenLabel.index heq
    cases hl.symm.trans hj
    simp only [Bool.and_eq_true, decide_eq_true_eq] at hkeep hkeep'
    exact ⟨i, l, ⟨hl, hm, hkeep'.1, hkeep.2⟩, rfl⟩
  · rintro ⟨i, l, ⟨hl, hm, hstart, hend⟩, rfl⟩
    exact entry_mem_openBy hl hm (by omega) hend

theorem marginCell_eq_iff_spans {done rest : List Nat} {above below column : Nat} {cell : Cell}
    (h : p.relevantLines = done ++ above :: below :: rest) (hcell : cell ≠ .blank) :
    column < p.marginWidth ∧ marginCell (p.openBy below) column = cell ↔
      ∃ i l, p.Spans above below i l ∧ column = 2 * p.slotOf i ∧
        cell = .drawn .vbar l.label.color := by
  constructor
  · rintro ⟨_, hshown⟩
    cases hconnector : connectorAt (p.openBy below) column with
    | none =>
      rw [marginCell, hconnector] at hshown
      exact absurd hshown.symm hcell
    | some e =>
      rw [marginCell, hconnector] at hshown
      obtain ⟨he, hslot⟩ := connectorAt_eq_some hconnector
      obtain ⟨i, l, hspans, rfl⟩ := (mem_openBy_iff_spans h).mp he
      exact ⟨i, l, hspans, hslot.symm, hshown.symm⟩
  · rintro ⟨i, l, hspans, rfl, rfl⟩
    have he := (mem_openBy_iff_spans h).mpr ⟨i, l, hspans, rfl⟩
    exact ⟨openList_fits _ he, marginCell_of_mem (p.openBy_slots_nodup below) he⟩

theorem isGapBetween_of_gapRow {done rest : List Nat} {above below : Nat} {row : Row}
    (h : p.relevantLines = done ++ above :: below :: rest)
    (hrow : p.gapRow (p.openBy below) = .ok row) : p.IsGapBetween above below row := by
  have hfits : ∀ e ∈ p.openBy below, 2 * e.slot < p.marginWidth := openList_fits
  obtain ⟨lead, hlead, hrow⟩ := bind_eq_ok_iff.mp hrow
  cases (margin_eq hfits).symm.trans hlead
  cases hrow
  refine ⟨rfl, trimBlanks_trimBlanks _, fun column cell hcell => ?_, fun i j l m hi hj hslot => ?_⟩
  · rw [getElem?_trimBlanks hcell, List.getElem?_map, ← marginCell_eq_iff_spans h hcell]
    rcases Nat.lt_or_ge column p.marginWidth with hlt | hge
    · rw [List.getElem?_range hlt, Option.map_some, Option.some_inj, and_iff_right hlt]
    · rw [List.getElem?_eq_none (by simpa using hge), Option.map_none]
      exact iff_of_false (by simp) fun hshown => absurd hshown.1 (by omega)
  · have hei := (mem_openBy_iff_spans h).mpr ⟨i, l, hi, rfl⟩
    have hej := (mem_openBy_iff_spans h).mpr ⟨j, m, hj, rfl⟩
    have heq := List.inj_on_of_nodup_map (p.openBy_slots_nodup below) hei hej hslot
    exact congrArg OpenLabel.index heq

theorem interleaves_stack (hellipsis : config.ellipsis = true) {done lines : List Nat}
    (h : p.relevantLines = done ++ lines) :
    p.Interleaves (p.blockRows config) lines (p.stack config none lines) := by
  induction lines generalizing done with
  | nil => exact .nil
  | cons above lines ih =>
    rw [stack, gapRows_none, List.nil_append]
    cases lines with
    | nil =>
      rw [stack, List.append_nil]
      exact .last above
    | cons below rest =>
      have hnext : p.relevantLines = done ++ [above] ++ below :: rest := by
        rw [h, List.append_assoc, List.cons_append, List.nil_append]
      have hrest := ih hnext
      have hlt := lt_of_relevantLines h
      rw [stack_eq_append, List.head?_cons, Option.elim_some, gapRows, hellipsis, Bool.true_and,
        Option.any_some]
      by_cases hnext : below = above + 1
      · rw [if_neg (by simp [hnext]), List.nil_append]
        exact .next hnext hrest
      · obtain ⟨row, hrow, _⟩ := p.gapRow_shown below
        rw [if_pos (by simpa using hnext), hrow]
        exact .gap (by omega) (isGapBetween_of_gapRow h hrow) hrest

/-- Whether gap rows are drawn or not, the other rows are the same, and refused for the same cause. -/
theorem blocks_without_gaps (config : Config) (underlines : Bool) (previous : Option Nat)
    {done lines : List Nat} (h : p.relevantLines = done ++ lines) :
    (p.blocks (config.inLayers false underlines) previous lines (p.reached lines)).rows =
      (p.blocks (config.inLayers true underlines) previous lines (p.reached lines)).rows.map
        withoutGaps := by
  induction lines generalizing done previous with
  | nil => rfl
  | cons line lines ih =>
    have hline : line < p.source.lines.length := lt_length_of_mem_relevantLines (by simp [h])
    have hnext : p.relevantLines = done ++ [line] ++ lines := by
      rw [h, List.append_assoc, List.cons_append, List.nil_append]
    have hblock : p.block (config.inLayers false underlines) line (p.openBy line) =
      p.block (config.inLayers true underlines) line (p.openBy line) := rfl
    have hoff : p.gapRows (config.inLayers false underlines) previous line = [] := rfl
    rw [blocks, blocks, reached, gapRows_eq, gapRows_eq, hoff, hblock]
    by_cases haligned : p.AlignedOn line
    · obtain ⟨b, hrows, hb⟩ := blockRows_of_alignedOn (config.inLayers true underlines) hline haligned
      have hgaps : withoutGaps (p.gapRows (config.inLayers true underlines) previous line) = [] :=
        withoutGaps_eq_nil fun row hrow => (p.gapRows_shown _ _ _ row hrow).role_eq
      have hkept : withoutGaps (p.blockRows (config.inLayers true underlines) line) =
          p.blockRows (config.inLayers true underlines) line := by
        refine withoutGaps_eq_self fun row hrow hgap => ?_
        have hrole := b.line?_eq hline haligned (hrows ▸ hrow)
        rw [hgap] at hrole
        cases hrole
      simp only [hb, openPast_eq_reached h, ih (some line) hnext]
      cases (p.blocks (config.inLayers true underlines) (some line) lines (p.reached lines)).rows with
      | error cause => rfl
      | ok more =>
        simp only [Except.map, withoutGaps_append, hgaps, hkept]
    · obtain ⟨span, hspan⟩ :=
        block_of_not_alignedOn (config.inLayers true underlines) hline haligned
      simp only [hspan]
      rfl

end Placement

end Callout

import Callout.Proofs.DrawnLook
import Callout.Proofs.GapLayer
import Callout.Proofs.RenderOutcome

namespace Callout

/-- A diagnostic that is drawn with gap rows or without, and with underlines or without. -/
def Diagnostic.inLayers (d : Diagnostic) (ellipsis underlines : Bool) : Diagnostic :=
  { d with config := d.config.inLayers ellipsis underlines }

/-- What is left of rows that are drawn with gap rows and underlines when only some of both are wanted. -/
def layered (width : Nat) (ellipsis underlines : Bool) (rows : List Row) : List Row :=
  let kept := if ellipsis then rows else withoutGaps rows
  if underlines then kept else kept.map (Row.anchorsOnly width)

theorem layered_append (width : Nat) (ellipsis underlines : Bool) (rows more : List Row) :
    layered width ellipsis underlines (rows ++ more) =
      layered width ellipsis underlines rows ++ layered width ellipsis underlines more := by
  cases ellipsis <;> cases underlines <;> simp [layered, withoutGaps_append]

/-- Rows that belong to no line are in no layer. -/
theorem layered_eq_self {rows : List Row} (width : Nat) (ellipsis underlines : Bool)
    (h : ∀ row ∈ rows, row.role.line? = none ∧ row.role ≠ .gap) :
    layered width ellipsis underlines rows = rows := by
  have hgaps : withoutGaps rows = rows := withoutGaps_eq_self fun row hrow => (h row hrow).2
  have hlines : rows.map (Row.anchorsOnly width) = rows := by
    refine map_anchorsOnly_of_roles width fun row hrow line hrole => ?_
    have hnone := (h row hrow).1
    rw [hrole] at hnone
    cases hnone
  cases ellipsis <;> cases underlines <;> simp [layered, hgaps, hlines]

theorem layered_without_gaps (width : Nat) (underlines : Bool) (rows : List Row) :
    layered width false underlines rows = withoutGaps (layered width true underlines rows) := by
  cases underlines with
  | true => rfl
  | false => exact (withoutGaps_anchorsOnly width rows).symm

theorem Placement.content_layers (p : Placement) (config : Config) (ellipsis underlines : Bool) :
    (p.content (config.inLayers ellipsis underlines) []).rows =
      (p.content (config.inLayers true true) []).rows.map
        (layered p.marginWidth ellipsis underlines) := by
  have hgaps : (p.content (config.inLayers false true) []).rows =
      (p.content (config.inLayers true true) []).rows.map withoutGaps := by
    have hblocks := blocks_without_gaps config true none (List.nil_append p.relevantLines).symm
    rwa [reached_relevantLines] at hblocks
  have hlines : (p.content (config.inLayers ellipsis false) []).rows =
      (p.content (config.inLayers ellipsis true) []).rows.map
        (List.map (Row.anchorsOnly p.marginWidth)) := by
    rw [content, blocks_without_underlines]
    rfl
  cases underlines with
  | true =>
    cases ellipsis with
    | true => cases (p.content (config.inLayers true true) []).rows <;> rfl
    | false => exact hgaps
  | false =>
    rw [hlines]
    cases ellipsis with
    | true => rfl
    | false =>
      rw [hgaps]
      cases (p.content (config.inLayers true true) []).rows <;> rfl

namespace Canvas

theorem frame_layered (d : Diagnostic) (locus : Locus) (width : Nat) (ellipsis underlines : Bool)
    (content : List Row) :
    layered width ellipsis underlines (frame d (borderRow d.sourceId locus) content) =
      frame d (borderRow d.sourceId locus) (layered width ellipsis underlines content) := by
  have houter : ∀ rows : List Row,
      (∀ row ∈ rows, row ∈ [header ⟨d, none⟩, borderRow d.sourceId locus] ∨
        row ∈ [emptyRow] ++ notes ⟨d, none⟩ ++ [footer]) →
      layered width ellipsis underlines rows = rows := by
    refine fun rows hrows => layered_eq_self width ellipsis underlines fun row hrow => ?_
    obtain ⟨hline, _, hgap⟩ := outer_rows rfl (hrows row hrow)
    exact ⟨hline, hgap⟩
  have hsplit : ∀ content, frame d (borderRow d.sourceId locus) content =
      [header ⟨d, none⟩, borderRow d.sourceId locus] ++
        (content ++ ([emptyRow] ++ notes ⟨d, none⟩ ++ [footer])) :=
    fun content => by simp only [frame, List.append_assoc]
  rw [hsplit, hsplit, layered_append, layered_append, houter _ fun row hrow => .inl hrow,
    houter _ fun row hrow => .inr hrow]

theorem rows_layers (d : Diagnostic) (placement : Option Placement) (ellipsis underlines : Bool) :
    (⟨d.inLayers ellipsis underlines, placement⟩ : Canvas).rows =
      (⟨d.inLayers true true, placement⟩ : Canvas).rows.map
        (layered (⟨d, placement⟩ : Canvas).marginWidth ellipsis underlines) := by
  cases placement with
  | none =>
    have hself : layered 0 ellipsis underlines (header ⟨d, none⟩ :: bareNotes ⟨d, none⟩) =
        header ⟨d, none⟩ :: bareNotes ⟨d, none⟩ := by
      refine layered_eq_self 0 ellipsis underlines fun row hrow => ?_
      rcases List.mem_cons.mp hrow with rfl | hrow
      · exact ⟨rfl, Role.noConfusion⟩
      · obtain ⟨⟨note, i⟩, _, hrow⟩ := List.mem_flatMap.mp hrow
        rw [noteRows_role hrow]
        exact ⟨rfl, Role.noConfusion⟩
    exact congrArg Except.ok hself.symm
  | some p =>
    have hcontent := p.content_layers d.config ellipsis underlines
    have hframe : frame (d.inLayers ellipsis underlines) = frame (d.inLayers true true) := rfl
    have hconfig : ∀ ellipsis underlines, (d.inLayers ellipsis underlines).config =
      d.config.inLayers ellipsis underlines := fun _ _ => rfl
    have hwidth : (⟨d, some p⟩ : Canvas).marginWidth = p.marginWidth := rfl
    rw [rows_eq_frame, rows_eq_frame, hconfig, hconfig, hcontent, hframe, hwidth]
    cases p.locus with
    | error cause => rfl
    | ok locus =>
      cases (p.content (d.config.inLayers true true) []).rows with
      | error cause => rfl
      | ok content =>
        exact congrArg Except.ok
          (frame_layered (d.inLayers true true) locus p.marginWidth ellipsis underlines content).symm

end Canvas

/-- A drawn diagnostic: its labels have their places, its rows are made and are shown as its text. -/
structure Diagnostic.Drawn (d : Diagnostic) (catalog : Catalog) (placement : Option Placement)
    (rows : List Row) : Prop where
  placed : Canvas.ofDiagnostic catalog d = .ok ⟨d, placement⟩
  rows_eq : (⟨d, placement⟩ : Canvas).rows = .ok rows
  render_eq : render catalog d = .ok (String.ofList ((⟨d, placement⟩ : Canvas).text rows))

/-- The lines of a report with gap rows: their blocks, and gap rows between those of lines that do not
follow each other. -/
def Placement.InBlocks (p : Placement) (d : Diagnostic) (rows : List Row) : Prop :=
  ∃ locus block content, p.locus = .ok locus ∧
    rows = Canvas.frame d (borderRow d.sourceId locus) content ∧
    p.Interleaves block p.relevantLines content ∧
    ∀ line ∈ p.relevantLines, ∃ messages closings, p.IsBlock line (block line) messages closings

theorem Placement.inBlocks_of_rows {p : Placement} {d : Diagnostic} {rows : List Row}
    (hellipsis : d.config.ellipsis = true) (haligned : p.Aligned)
    (hrows : (⟨d, some p⟩ : Canvas).rows = .ok rows) : p.InBlocks d rows := by
  rw [Canvas.rows_eq_frame, content_eq_stack d.config haligned] at hrows
  obtain ⟨locus, hlocus, hrows⟩ := bind_eq_ok_iff.mp hrows
  cases hrows
  refine ⟨locus, p.blockRows d.config, _, hlocus, rfl,
    interleaves_stack hellipsis (List.nil_append _).symm, fun line hline => ?_⟩
  have hlt := lt_length_of_mem_relevantLines hline
  have hon := aligned_iff.mp haligned line hline
  obtain ⟨b, hb, _⟩ := blockRows_of_alignedOn d.config hlt hon
  rw [hb]
  exact b.isBlock hlt hon

/-- A diagnostic is drawn in all layers or refused for the same cause. Without gap rows the others are
as they were; without underlines only the rows below code differ, and keep their margin and the anchors.
Gap rows stand just where lines are left out, and show the labels that reach across. -/
theorem render_in_layers (catalog : Catalog) (d : Diagnostic) :
    (∃ cause, ∀ ellipsis underlines,
      render catalog (d.inLayers ellipsis underlines) = .error cause) ∨
    ∃ placement, ∃ rows : Bool → Bool → List Row,
      (∀ ellipsis underlines, (d.inLayers ellipsis underlines).Drawn catalog placement
        (rows ellipsis underlines)) ∧
      (∀ underlines, rows false underlines = withoutGaps (rows true underlines)) ∧
      (∀ ellipsis, rows ellipsis false =
        (rows ellipsis true).map (Row.anchorsOnly (⟨d, placement⟩ : Canvas).marginWidth)) ∧
      ∀ p, placement = some p → ∀ underlines, p.InBlocks d (rows true underlines) := by
  have hplaced : ∀ ellipsis underlines,
      Canvas.ofDiagnostic catalog (d.inLayers ellipsis underlines) =
        (Canvas.ofDiagnostic catalog d).map
          fun c => ⟨d.inLayers ellipsis underlines, c.placement⟩ :=
    fun ellipsis underlines =>
      Canvas.ofDiagnostic_congr catalog rfl rfl
  cases hcanvas : Canvas.ofDiagnostic catalog d with
  | error cause =>
    refine .inl ⟨cause, fun ellipsis underlines => ?_⟩
    rw [render, hplaced, hcanvas]
    rfl
  | ok c =>
    obtain ⟨_, placement⟩ := c
    rw [hcanvas] at hplaced
    have hlayers := Canvas.rows_layers d placement
    cases hrows : (⟨d.inLayers true true, placement⟩ : Canvas).rows with
    | error cause =>
      refine .inl ⟨cause, fun ellipsis underlines => ?_⟩
      rw [hrows] at hlayers
      rw [render, hplaced]
      simp only [Except.map, bind, Except.bind, hlayers]
    | ok rows =>
      rw [hrows] at hlayers
      have hdrawn : ∀ ellipsis underlines, (d.inLayers ellipsis underlines).Drawn catalog placement
          (layered (⟨d, placement⟩ : Canvas).marginWidth ellipsis underlines rows) := by
        refine fun ellipsis underlines =>
          ⟨hplaced ellipsis underlines, hlayers ellipsis underlines, ?_⟩
        rw [render, hplaced]
        simp only [Except.map, bind, Except.bind, hlayers]
        rfl
      refine .inr ⟨placement, fun ellipsis underlines => layered _ ellipsis underlines rows, hdrawn,
        fun underlines => layered_without_gaps _ underlines rows, fun ellipsis => rfl, ?_⟩
      rintro p rfl underlines
      obtain ⟨hcanvas, hrows, hrender⟩ := hdrawn true underlines
      obtain ⟨_, haligned, _⟩ := placement_of_render hrender hcanvas
      exact Placement.inBlocks_of_rows (d := d.inLayers true underlines) rfl haligned hrows

end Callout

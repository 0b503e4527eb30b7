import Callout.Proofs.ShownText
import Callout.Proofs.UnderlineColumns

namespace Callout

/-- What is left of a cell when underlines are not drawn. -/
def Cell.ifAnchor (cell : Cell) : Cell :=
  if cell.mark = .glyph .underbar then cell else .blank

/-- The first columns of a row, and only the anchors of the others. -/
def anchorCells (width : Nat) (cells : List Cell) : List Cell :=
  cells.take width ++ (cells.drop width).map Cell.ifAnchor

/-- A row without underlines. Rows that are not below code have none. -/
def Row.anchorsOnly (width : Nat) (row : Row) : Row :=
  match row.role with
  | .underlines _ => ⟨row.role, trimBlanks (anchorCells width row.body)⟩
  | _ => row

theorem Row.anchorsOnly_of_role {row : Row} (width : Nat) (h : ∀ line, row.role ≠ .underlines line) :
    row.anchorsOnly width = row := by
  unfold Row.anchorsOnly
  split
  next line hrole => exact absurd hrole (h line)
  next => rfl

@[simp]
theorem Row.anchorsOnly_role (width : Nat) (row : Row) : (row.anchorsOnly width).role = row.role := by
  unfold Row.anchorsOnly
  split <;> rfl

theorem map_anchorsOnly_of_roles {rows : List Row} (width : Nat)
    (h : ∀ row ∈ rows, ∀ line, row.role ≠ .underlines line) :
    rows.map (Row.anchorsOnly width) = rows := by
  conv_rhs => rw [← List.map_id rows]
  exact List.map_congr_left fun row hrow => Row.anchorsOnly_of_role width (h row hrow)

section Cells

theorem map_ifAnchor_blanks (n : Nat) :
    (List.replicate n Cell.blank).map Cell.ifAnchor = List.replicate n Cell.blank := by
  rw [List.map_replicate]
  rfl

theorem trimBlanks_append_blanks (cells : List Cell) (n : Nat) :
    trimBlanks (cells ++ List.replicate n .blank) = trimBlanks cells := by
  have hblanks : Text.dropEndWhile (· == Cell.blank) (List.replicate n .blank) = [] := by
    change List.rdropWhile _ _ = []
    rw [List.rdropWhile_eq_nil_iff]
    intro cell hcell
    rw [List.eq_of_mem_replicate hcell, beq_self_eq_true]
  rw [trimBlanks, dropEndWhile_append, if_pos hblanks, trimBlanks]

theorem anchorCells_append_blanks (width : Nat) (cells : List Cell) (n : Nat) :
    anchorCells width (cells ++ List.replicate n .blank) =
      anchorCells width cells ++ List.replicate n .blank := by
  rw [anchorCells, anchorCells, List.take_append, List.drop_append]
  rcases Nat.le_total width cells.length with hle | hle
  · rw [Nat.sub_eq_zero_of_le hle, List.take_zero, List.drop_zero, List.append_nil, List.map_append,
      map_ifAnchor_blanks, List.append_assoc]
  · rw [List.drop_eq_nil_of_le hle, List.nil_append, List.map_nil, List.append_nil, List.append_assoc,
      List.drop_replicate, map_ifAnchor_blanks, ← List.drop_replicate, List.take_append_drop]

/-- Blanks at the end of a row may be trimmed before its underlines are taken away. -/
theorem trimBlanks_anchorCells (width : Nat) (cells : List Cell) :
    trimBlanks (anchorCells width (trimBlanks cells)) = trimBlanks (anchorCells width cells) := by
  obtain ⟨n, hcells⟩ := exists_trimmed_blanks cells
  conv_rhs => rw [hcells, anchorCells_append_blanks, trimBlanks_append_blanks]

theorem anchorCells_append {width : Nat} {lead : List Cell} (h : lead.length = width)
    (cells : List Cell) : anchorCells width (lead ++ cells) = lead ++ cells.map Cell.ifAnchor := by
  rw [anchorCells, List.take_left' h, List.drop_left' h]

end Cells

section Underlines

variable {row row' : List Cell} {n : Nat}

/-- Anchors are put in the columns of both rows that exist. -/
theorem drawAnchors_layers {anchors : List Anchor}
    (h : row.map Cell.ifAnchor = row' ++ List.replicate n .blank)
    (hanchors : ∀ a ∈ anchors, a.column < row'.length) :
    ∃ drawn drawn', drawAnchors row anchors = .ok drawn ∧ drawAnchors row' anchors = .ok drawn' ∧
      drawn.map Cell.ifAnchor = drawn' ++ List.replicate n .blank := by
  induction anchors generalizing row row' with
  | nil => exact ⟨row, row', rfl, rfl, h⟩
  | cons a anchors ih =>
    have hlength : row.length = row'.length + n := by
      have hlengths := congrArg List.length h
      rwa [List.length_map, List.length_append, List.length_replicate] at hlengths
    have hcolumn : a.column < row'.length := hanchors a (by simp)
    have hput : putCell row a.column (.drawn .underbar a.target.label.color) =
        .ok (row.set a.column (.drawn .underbar a.target.label.color)) := by
      rw [putCell, if_pos (by omega)]
    have hput' : putCell row' a.column (.drawn .underbar a.target.label.color) =
        .ok (row'.set a.column (.drawn .underbar a.target.label.color)) := by
      rw [putCell, if_pos hcolumn]
    have hset : (row.set a.column (.drawn .underbar a.target.label.color)).map Cell.ifAnchor =
        row'.set a.column (.drawn .underbar a.target.label.color) ++ List.replicate n .blank := by
      rw [List.map_set, h, List.set_append_left _ _ hcolumn]
      rfl
    obtain ⟨drawn, drawn', hdrawn, hdrawn', hlayers⟩ := ih hset fun b hb => by
      rw [List.length_set]
      exact hanchors b (by simp [hb])
    refine ⟨drawn, drawn', ?_, ?_, hlayers⟩
    · rw [drawAnchors, List.foldlM_cons, hput]
      exact hdrawn
    · rw [drawAnchors, List.foldlM_cons, hput']
      exact hdrawn'

/-- There is no anchor yet when underlines have been drawn. -/
theorem drawUnderlines_ifAnchor {targets : List Target} {k : Nat}
    (h : drawUnderlines (widen k []) targets = .ok row) : ∀ cell ∈ row, cell.ifAnchor = .blank := by
  have hpaints := foldlM_paints (fun t _ row row' ht => drawUnderline_paints ht) h
  intro cell hcell
  obtain ⟨c, hc⟩ := List.mem_iff_getElem?.mp hcell
  refine if_neg fun hmark => ?_
  have hglyph : HasGlyph row c .underbar := by rw [HasGlyph, hc, Option.map_some, hmark]
  rcases (hpaints c .underbar).mp hglyph with ⟨_, hrole⟩ | ⟨_, hempty⟩
  · cases hrole
  · rw [hasGlyph_widen] at hempty
    cases hempty

/-- With underlines the row below the code is drawn as well as without them, with the same anchors. -/
theorem underlineCells_layers (targets : List Target) (anchors : List Anchor) :
    ∃ row row' n, underlineCells true targets anchors = .ok row ∧
      underlineCells false targets anchors = .ok row' ∧
      row.map Cell.ifAnchor = row' ++ List.replicate n .blank := by
  obtain ⟨lined, hlined, hpainted⟩ :=
    drawUnderlines_painted targets (widen_nil_painted (lastColumn anchors + 1))
  have hwidth : (widen (lastColumn anchors + 1) []).length = lastColumn anchors + 1 := by
    rw [widen, List.nil_append, List.length_replicate, List.length_nil, Nat.sub_zero]
  have hlayers : lined.map Cell.ifAnchor = widen (lastColumn anchors + 1) [] ++
      List.replicate (lined.length - (lastColumn anchors + 1)) .blank := by
    rw [List.map_eq_replicate_iff.mpr (drawUnderlines_ifAnchor hlined), widen, List.nil_append,
      List.replicate_append_replicate, List.length_nil, Nat.sub_zero,
      Nat.add_sub_cancel' hpainted.width_le]
  obtain ⟨row, row', hrow, hrow', hanchors⟩ := drawAnchors_layers hlayers fun a ha => by
    rw [hwidth]
    exact Nat.lt_succ_of_le (column_le_lastColumn ha)
  refine ⟨row, row', _, ?_, hrow', hanchors⟩
  rw [underlineCells, if_pos rfl, hlined]
  exact hrow

end Underlines

/-- A way to draw with gap rows or without, and with underlines or without. -/
def Config.inLayers (config : Config) (ellipsis underlines : Bool) : Config :=
  { config with ellipsis, underlines }

def Drawn.mapRows (f : List Row → List Row) (drawn : Drawn) : Drawn :=
  { drawn with rows := drawn.rows.map f }

namespace Placement

variable {p : Placement}

theorem length_margin {width : Nat} {active : List OpenLabel} {lead : List Cell}
    (h : margin width active = .ok lead) : lead.length = width := by
  obtain ⟨_, _, h⟩ := bind_eq_ok_iff.mp h
  cases h
  rw [List.length_map, List.length_range]

theorem pointerRows_without_underlines (config : Config) (ellipsis : Bool) (width : Nat)
    (active : List OpenLabel) (line : Nat) (targets : List Target) :
    pointerRows (config.inLayers ellipsis false) width active line targets =
      (pointerRows (config.inLayers ellipsis true) width active line targets).map
        (List.map (Row.anchorsOnly width)) := by
  unfold pointerRows
  split
  next => rfl
  next =>
    obtain ⟨row, row', n, hrow, hrow', hlayers⟩ :=
      underlineCells_layers targets (anchors config.attach targets)
    simp only [Config.inLayers, hrow, hrow', ok_bind]
    refine bind_eq_map_bind fun lead hlead => bind_eq_map_bind fun messages _ => ?_
    have hbody : trimBlanks (anchorCells width (trimBlanks (lead ++ row))) =
        trimBlanks (lead ++ row') := by
      rw [trimBlanks_anchorCells, anchorCells_append (length_margin hlead), hlayers,
        ← List.append_assoc, trimBlanks_append_blanks]
    simp only [pure, Except.pure, Except.map, List.map_cons, Row.anchorsOnly, hbody, List.map_map]
    rfl

theorem spacerRow_without_underlines {width line : Nat} {active : List OpenLabel} {rows : List Row}
    (h : spacerRow width active line = .ok rows) : rows.map (Row.anchorsOnly width) = rows := by
  unfold spacerRow at h
  split at h
  next =>
    cases h
    rfl
  next =>
    obtain ⟨_, _, h⟩ := bind_eq_ok_iff.mp h
    cases h
    rfl

theorem upperRows_without_underlines (p : Placement) (config : Config) (ellipsis : Bool) (index : Int)
    (marks : List (Nat × Span)) (before active : List OpenLabel) :
    p.upperRows (config.inLayers ellipsis false) index marks before active =
      (p.upperRows (config.inLayers ellipsis true) index marks before active).map
        (List.map (Row.anchorsOnly p.marginWidth)) := by
  refine bind_eq_map_bind fun lead _ => bind_eq_map_bind fun fragments _ =>
    bind_eq_map_bind fun targets _ => ?_
  rw [pointerRows_without_underlines]
  refine map_bind_eq_map_bind fun pointers _ => bind_eq_map_bind fun spacer hspacer => ?_
  simp only [pure, Except.pure, Except.map, List.map_cons, List.map_append,
    spacerRow_without_underlines hspacer]
  rfl

theorem closeAll_without_underlines {line : Nat} {active ending : List OpenLabel} {rows : List Row}
    (h : (p.closeAll line active ending).rows = .ok rows) (width : Nat) :
    rows.map (Row.anchorsOnly width) = rows := by
  induction ending generalizing active rows with
  | nil =>
    cases h
    rfl
  | cons e ending ih =>
    rw [closeAll] at h
    cases hrow : p.closingRow line (active.erase e) e with
    | error cause => simp only [hrow] at h; cases h
    | ok row =>
      simp only [hrow] at h
      obtain ⟨lead, _, hrow⟩ := bind_eq_ok_iff.mp hrow
      cases hrow
      cases hrest : (p.closeAll line (active.erase e) ending).rows with
      | error cause => rw [hrest] at h; cases h
      | ok rest =>
        rw [hrest] at h
        cases h
        rw [List.map_cons, ih hrest]
        rfl

/-- A line is drawn with underlines as well as without them, and leaves the same labels open. -/
theorem block_without_underlines (p : Placement) (config : Config) (ellipsis : Bool) (index : Int)
    (before : List OpenLabel) : p.block (config.inLayers ellipsis false) index before =
      (p.block (config.inLayers ellipsis true) index before).mapRows
        (List.map (Row.anchorsOnly p.marginWidth)) := by
  unfold block
  cases p.marks index with
  | error cause => rfl
  | ok marks =>
    simp only [upperRows_without_underlines]
    cases p.upperRows (config.inLayers ellipsis true) index marks before
        (p.openAt index marks before) with
    | error cause => rfl
    | ok upper =>
      simp only [Except.map, Drawn.mapRows]
      cases hclosing : (p.closeAll index.toNat (p.openAt index marks before)
          (endingAt index (p.openAt index marks before)).reverse).rows with
      | error cause => rfl
      | ok closing => simp only [List.map_append, closeAll_without_underlines hclosing]

theorem gapRow_without_underlines {active : List OpenLabel} {row : Row}
    (h : p.gapRow active = .ok row) (width : Nat) : row.anchorsOnly width = row := by
  obtain ⟨_, _, h⟩ := bind_eq_ok_iff.mp h
  cases h
  rfl

theorem blocks_without_underlines (p : Placement) (config : Config) (ellipsis : Bool)
    (previous : Option Nat) (lines : List Nat) (active : List OpenLabel) :
    p.blocks (config.inLayers ellipsis false) previous lines active =
      (p.blocks (config.inLayers ellipsis true) previous lines active).mapRows
        (List.map (Row.anchorsOnly p.marginWidth)) := by
  induction lines generalizing previous active with
  | nil => rfl
  | cons line lines ih =>
    have hskips : (config.inLayers ellipsis false).ellipsis =
      (config.inLayers ellipsis true).ellipsis := rfl
    rw [blocks, blocks, hskips, block_without_underlines]
    split
    next => rfl
    next gap hgap =>
      have hgapRows : gap.map (Row.anchorsOnly p.marginWidth) = gap := by
        split at hgap
        next =>
          cases hrow : p.gapRow active with
          | error cause => rw [hrow] at hgap; cases hgap
          | ok row =>
            rw [hrow] at hgap
            cases hgap
            rw [List.map_singleton, gapRow_without_underlines hrow]
        next =>
          cases hgap
          rfl
      simp only [Drawn.mapRows]
      cases (p.block (config.inLayers ellipsis true) line active).rows with
      | error cause => rfl
      | ok rows =>
        simp only [Except.map, ih]
        cases hrest : (p.blocks (config.inLayers ellipsis true) (some line) lines
            (p.block (config.inLayers ellipsis true) line active).active).rows with
        | error cause => simp only [Drawn.mapRows, hrest]; rfl
        | ok rest => simp only [Drawn.mapRows, hrest, Except.map, List.map_append, hgapRows]

end Placement

end Callout

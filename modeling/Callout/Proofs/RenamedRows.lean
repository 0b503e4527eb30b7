import Callout.Proofs.BlockRows
import Callout.Proofs.RenamedLabels

namespace Callout

variable (r : Renaming)

/-- The role of the same row of a line and a label of other names. -/
def Role.rename : Role → Role
  | .code line => .code (r.line line)
  | .underlines line => .underlines (r.line line)
  | .message line label => .message (r.line line) (r.label label)
  | .spacer line => .spacer (r.line line)
  | .closing line label => .closing (r.line line) (r.label label)
  | role => role

def Row.rename (row : Row) : Row :=
  { row with role := row.role.rename r }

theorem Role.rename_of_line? {role : Role} (h : role.line? = none) : role.rename r = role := by
  cases role <;> first | rfl | cases h

theorem Row.rename_of_line? {row : Row} (h : row.role.line? = none) : row.rename r = row := by
  rw [Row.rename, Role.rename_of_line? r h]

/-- A target of another name, in the same columns. -/
structure Target.Renames (t t' : Target) : Prop where
  index_eq : t'.index = r.label t.index
  span_eq : t'.span = t.span
  start_eq : t'.startColumn = t.startColumn
  end_eq : t'.endColumn = t.endColumn
  color_eq : t'.label.color = t.label.color
  message_eq : t'.label.message = t.label.message

/-- The same anchor, of another target. -/
def Anchor.mapTarget (f : Target → Target) (a : Anchor) : Anchor :=
  { a with target := f a.target }

section Margin

variable {r} (width : Nat) (active : List OpenLabel)

theorem connectorAt_rename (column : Nat) : connectorAt (active.map (OpenLabel.rename r)) column =
    (connectorAt active column).map (OpenLabel.rename r) :=
  List.find?_map

theorem marginCell_rename : marginCell (active.map (OpenLabel.rename r)) = marginCell active := by
  funext column
  rw [marginCell, marginCell, connectorAt_rename]
  cases connectorAt active column <;> rfl

theorem jointCell_rename (first : Joint) (joints : List Joint) :
    jointCell width (active.map (OpenLabel.rename r)) first joints =
      jointCell width active first joints := by
  funext column
  rw [jointCell, jointCell, marginCell_rename, connectorAt_rename]
  cases connectorAt active column <;> rfl

theorem closingCell_rename (e : OpenLabel) :
    closingCell width (active.map (OpenLabel.rename r)) (e.rename r) = closingCell width active e := by
  funext column
  rw [closingCell, closingCell, marginCell_rename, connectorAt_rename]
  cases connectorAt active column <;> rfl

theorem checkMargin_rename :
    checkMargin width (active.map (OpenLabel.rename r)) = checkMargin width active := by
  rw [checkMargin, checkMargin, List.find?_map]
  have hsame : (fun e => decide (width ≤ 2 * e.slot)) ∘ OpenLabel.rename r =
      fun e : OpenLabel => decide (width ≤ 2 * e.slot) := rfl
  rw [hsame]
  cases active.find? fun e => decide (width ≤ 2 * e.slot) <;> rfl

theorem margin_rename : margin width (active.map (OpenLabel.rename r)) = margin width active := by
  rw [margin, margin, checkMargin_rename, marginCell_rename]

theorem jointMargin_rename (joints : List Joint) :
    jointMargin width (active.map (OpenLabel.rename r)) joints = jointMargin width active joints := by
  cases joints with
  | nil => exact margin_rename width active
  | cons j rest => rw [jointMargin, jointMargin, checkMargin_rename, jointCell_rename]

theorem closingMargin_rename (e : OpenLabel) :
    closingMargin width (active.map (OpenLabel.rename r)) (e.rename r) =
      closingMargin width active e := by
  have hall : active.map (OpenLabel.rename r) ++ [e.rename r] =
      (active ++ [e]).map (OpenLabel.rename r) := by
    rw [List.map_append, List.map_singleton]
  rw [closingMargin, closingMargin, hall, checkMargin_rename, closingCell_rename]

end Margin

section Pointer

variable {r} {f : Target → Target} (hf : ∀ t, Target.Renames r t (f t))
include hf

theorem attachment_rename (attach : Attach) (t : Target) :
    (f t).attachment attach = t.attachment attach := by
  simp only [Target.attachment, (hf t).start_eq, (hf t).end_eq]

theorem anchorFrom_rename (attach : Attach) (taken : List Nat) (targets : List Target) :
    anchorFrom attach taken (targets.map f) =
      (anchorFrom attach taken targets).map (Anchor.mapTarget f) := by
  induction targets generalizing taken with
  | nil => rfl
  | cons t targets ih =>
    rw [List.map_cons, anchorFrom, anchorFrom, List.map_cons, ih, attachment_rename hf]
    rfl

theorem anchors_rename (attach : Attach) (targets : List Target) :
    anchors attach (targets.map f) = (anchors attach targets).map (Anchor.mapTarget f) := by
  have hsorted := List.map_mergeSort (r := fun a b : Target => decide (a.span.stop ≤ b.span.stop))
    (s := fun a b : Target => decide (a.span.stop ≤ b.span.stop)) (f := f)
    (l := targets) fun a _ b _ => by rw [(hf a).span_eq, (hf b).span_eq]
  rw [anchors, anchors, ← anchorFrom_rename hf, hsorted]

theorem drawnBefore_rename (a b : Target) : (f a).drawnBefore (f b) = a.drawnBefore b := by
  simp only [Target.drawnBefore, (hf a).span_eq, (hf b).span_eq, (hf a).index_eq, (hf b).index_eq,
    r.label_strictMono.le_iff_le]

theorem drawUnderline_rename (row : List Cell) (t : Target) :
    drawUnderline row (f t) = drawUnderline row t := by
  simp only [drawUnderline, (hf t).start_eq, (hf t).end_eq, (hf t).color_eq]

theorem underlineCells_rename (underlines : Bool) (targets : List Target) (anchors : List Anchor) :
    underlineCells underlines (targets.map f) (anchors.map (Anchor.mapTarget f)) =
      underlineCells underlines targets anchors := by
  have hlast : lastColumn (anchors.map (Anchor.mapTarget f)) = lastColumn anchors := by
    rw [lastColumn, lastColumn, List.map_map]
    rfl
  have hunder : ∀ row, drawUnderlines row (targets.map f) = drawUnderlines row targets := by
    intro row
    have hsorted := List.map_mergeSort (r := Target.drawnBefore) (s := Target.drawnBefore)
      (f := f) (l := targets) fun a _ b _ => (drawnBefore_rename hf a b).symm
    rw [drawUnderlines, drawUnderlines, ← hsorted, List.foldlM_map]
    simp only [drawUnderline_rename hf]
  have hanchors : ∀ row, drawAnchors row (anchors.map (Anchor.mapTarget f)) =
      drawAnchors row anchors := by
    intro row
    rw [drawAnchors, drawAnchors, List.foldlM_map]
    simp only [Anchor.mapTarget, (hf _).color_eq]
  simp only [underlineCells, hlast, hunder, hanchors]

theorem messageCells_rename (a : Anchor) (waiting : List Anchor) :
    messageCells (a.mapTarget f) (waiting.map (Anchor.mapTarget f)) = messageCells a waiting := by
  have hstop : connectorStop (a.mapTarget f) (waiting.map (Anchor.mapTarget f)) =
      connectorStop a waiting := by
    rw [connectorStop, connectorStop, List.filter_map, List.map_map]
    rfl
  rw [messageCells, messageCells, hstop, List.foldlM_map]
  simp only [Anchor.mapTarget, (hf _).color_eq, (hf _).message_eq]

theorem messageRows_rename (anchors : List Anchor) :
    messageRows (anchors.map (Anchor.mapTarget f)) =
      (messageRows anchors).map (List.map fun m => (m.1.mapTarget f, m.2)) := by
  induction anchors with
  | nil => rfl
  | cons a waiting ih =>
    rw [List.map_cons, messageRows, messageRows, messageCells_rename hf, ih]
    cases messageCells a waiting with
    | error e => rfl
    | ok cells => cases messageRows waiting <;> rfl

theorem pointerRows_rename (config : Config) (width : Nat) (active : List OpenLabel) (line : Nat)
    (targets : List Target) :
    Placement.pointerRows config width (active.map (OpenLabel.rename r)) (r.line line)
        (targets.map f) =
      (Placement.pointerRows config width active line targets).map (List.map (Row.rename r)) := by
  rw [Placement.pointerRows, Placement.pointerRows, List.isEmpty_map]
  split
  next => rfl
  next =>
    simp only [anchors_rename hf, underlineCells_rename hf, margin_rename, ← List.map_reverse,
      messageRows_rename hf]
    cases underlineCells config.underlines targets (anchors config.attach targets) with
    | error e => rfl
    | ok underlines =>
      cases margin width active with
      | error e => rfl
      | ok lead =>
        cases messageRows (anchors config.attach targets).reverse with
        | error e => rfl
        | ok messages =>
          simp only [bind, Except.bind, pure, Except.pure, Except.map, List.map_map,
            List.map_cons, Except.ok.injEq, Function.comp_def, Anchor.mapTarget, (hf _).index_eq]
          rfl

end Pointer

namespace Placement

section Margin

variable {r} (line : Nat) (active : List OpenLabel)

theorem endingAt_rename : endingAt (r.line line) (active.map (OpenLabel.rename r)) =
    (endingAt line active).map (OpenLabel.rename r) := by
  rw [endingAt, endingAt, List.filter_map]
  congr 2
  funext e
  rw [Function.comp_apply, Bool.eq_iff_iff, beq_iff_eq, beq_iff_eq, Int.ofNat_inj, Int.ofNat_inj]
  exact r.line_strictMono.injective.eq_iff

theorem joints_rename (before : List OpenLabel) :
    joints (r.line line) (before.map (OpenLabel.rename r)) (active.map (OpenLabel.rename r)) =
      joints line before active := by
  rw [joints, joints, endingAt_rename, List.length_map, ← List.map_drop, List.map_map, List.map_map]
  rfl

theorem spacerRow_rename (width : Nat) :
    spacerRow width (active.map (OpenLabel.rename r)) (r.line line) =
      (spacerRow width active line).map (List.map (Row.rename r)) := by
  rw [spacerRow, spacerRow, endingAt_rename, List.isEmpty_map, margin_rename]
  split
  next => rfl
  next => cases margin width active <;> rfl

end Margin

/-- A placement with the same labels under other names, and margins of the same width. -/
structure Renames (r : Renaming) (p q : Placement) : Prop extends Relabels r p q where
  marginWidth_eq : q.marginWidth = p.marginWidth

variable {r} {p q : Placement} {config : Config} {i : Nat} (h : Renames r p q)
include h

theorem Renames.gapRow_eq (active : List OpenLabel) :
    q.gapRow (active.map (OpenLabel.rename r)) = p.gapRow active := by
  rw [gapRow, gapRow, h.marginWidth_eq, margin_rename]

theorem Renames.closingRow_eq (line : Nat) (active : List OpenLabel) (e : OpenLabel) :
    q.closingRow (r.line line) (active.map (OpenLabel.rename r)) (e.rename r) =
      (p.closingRow line active e).map (Row.rename r) := by
  have hmessage : q.messageOf (e.rename r).index = p.messageOf e.index := h.messageOf_eq e.index
  rw [closingRow, closingRow, h.marginWidth_eq, closingMargin_rename, hmessage]
  cases closingMargin p.marginWidth active e <;> rfl

theorem Renames.closeAll_rows_eq (line : Nat) (active ending : List OpenLabel) :
    (q.closeAll (r.line line) (active.map (OpenLabel.rename r))
        (ending.map (OpenLabel.rename r))).rows =
      (p.closeAll line active ending).rows.map (List.map (Row.rename r)) := by
  induction ending generalizing active with
  | nil => rfl
  | cons e ending ih =>
    have herase : (active.erase e).map (OpenLabel.rename r) =
        (active.map (OpenLabel.rename r)).erase (e.rename r) :=
      List.map_erase (OpenLabel.rename_injective r) active
    rw [List.map_cons, closeAll, closeAll, ← herase, h.closingRow_eq]
    cases p.closingRow line (active.erase e) e with
    | error cause => rfl
    | ok row =>
      simp only [Except.map, ih]
      cases (p.closeAll line (active.erase e) ending).rows <;> rfl

/-- The block of a line of another name has the same rows when its code and its targets are the
same. -/
theorem Renames.block_rows (b : LineBlock p config i) (b' : LineBlock q config (r.line i))
    {f : Target → Target} (hf : ∀ t, Target.Renames r t (f t))
    (hcode : codeCells b'.fragments = codeCells b.fragments)
    (htargets : b'.targets = b.targets.map f) : b'.rows = b.rows.map (Row.rename r) := by
  have hlead : b'.lead = b.lead := by
    have heq := b'.lead_eq
    rw [h.marginWidth_eq, h.openOn_eq, h.openBy_eq, joints_rename, jointMargin_rename] at heq
    exact Except.ok.inj (heq.symm.trans b.lead_eq)
  have hpointers : b'.pointers = b.pointers.map (Row.rename r) := by
    have heq := b'.pointers_eq
    rw [h.marginWidth_eq, h.openOn_eq, htargets, pointerRows_rename hf, b.pointers_eq] at heq
    exact (Except.ok.inj heq).symm
  have hspacer : b'.spacer = b.spacer.map (Row.rename r) := by
    have heq := b'.spacer_eq
    rw [h.marginWidth_eq, h.openOn_eq, spacerRow_rename, b.spacer_eq] at heq
    exact (Except.ok.inj heq).symm
  have hclosing : b'.closing = b.closing.map (Row.rename r) := by
    have heq := b'.closing_eq
    rw [h.openOn_eq, endingAt_rename, ← List.map_reverse, h.closeAll_rows_eq, b.closing_eq] at heq
    exact (Except.ok.inj heq).symm
  simp only [LineBlock.rows, hlead, hcode, hpointers, hspacer, hclosing, List.map_cons,
    List.map_append]
  rfl

end Placement

end Callout

import Callout.Layout.Pointer
import Callout.Proofs.Outcome
import Callout.Proofs.SlotAllocation
import Mathlib.Data.List.DropRight

namespace Callout

/-- Whether a cell is empty or drawn, not a character of some text. -/
def Cell.IsFrame (c : Cell) : Prop :=
  c = .blank ∨ ∃ role color, c = .drawn role color

theorem Cell.isFrame_blank : blank.IsFrame := .inl rfl

theorem Cell.isFrame_drawn (role : Glyph) (color : Color) : (drawn role color).IsFrame :=
  .inr ⟨role, color, rfl⟩

/-- What is trimmed from a row is blank. -/
theorem exists_trimmed_blanks (cells : List Cell) :
    ∃ n, cells = trimBlanks cells ++ List.replicate n .blank := by
  refine ⟨(cells.rtakeWhile (· == .blank)).length, ?_⟩
  have hblanks : cells.rtakeWhile (· == .blank) =
      List.replicate (cells.rtakeWhile (· == .blank)).length .blank := by
    rw [List.eq_replicate_iff]
    refine ⟨rfl, fun cell hcell => eq_of_beq ?_⟩
    exact List.mem_rtakeWhile_imp (p := (· == Cell.blank)) hcell
  rw [← hblanks]
  exact (List.rdropWhile_append_rtakeWhile (p := (· == Cell.blank))).symm

theorem checkMargin_eq_ok {width : Nat} {active : List OpenLabel}
    (h : ∀ e ∈ active, 2 * e.slot < width) : checkMargin width active = .ok () := by
  have hnone : active.find? (fun e => width ≤ 2 * e.slot) = none := by
    rw [List.find?_eq_none]
    intro e he hle
    have := h e he
    have := of_decide_eq_true hle
    omega
  rw [checkMargin, hnone]

theorem marginCell_isFrame (active : List OpenLabel) (column : Nat) :
    (marginCell active column).IsFrame := by
  unfold marginCell
  split
  · exact Cell.isFrame_drawn _ _
  · exact Cell.isFrame_blank

theorem jointCell_isFrame (width : Nat) (active : List OpenLabel) (first : Joint)
    (joints : List Joint) (column : Nat) :
    (jointCell width active first joints column).IsFrame := by
  unfold jointCell
  split
  · exact Cell.isFrame_drawn _ _
  · split
    · exact marginCell_isFrame active column
    · split
      · exact Cell.isFrame_drawn _ _
      · split
        · exact Cell.isFrame_drawn _ _
        · exact Cell.isFrame_drawn _ _

theorem closingCell_isFrame (width : Nat) (active : List OpenLabel) (entry : OpenLabel)
    (column : Nat) : (closingCell width active entry column).IsFrame := by
  unfold closingCell
  split
  · exact Cell.isFrame_drawn _ _
  · split
    · exact marginCell_isFrame active column
    · split
      · exact Cell.isFrame_drawn _ _
      · exact Cell.isFrame_drawn _ _

/-- A row of at least some width in which no text stands. -/
structure Painted (width : Nat) (row : List Cell) : Prop where
  width_le : width ≤ row.length
  frame : ∀ c ∈ row, c.IsFrame

theorem painted_range_map {width : Nat} {f : Nat → Cell} (h : ∀ column, (f column).IsFrame) :
    Painted width ((List.range width).map f) := by
  refine ⟨by rw [List.length_map, List.length_range], ?_⟩
  intro c hc
  obtain ⟨column, _, rfl⟩ := List.mem_map.mp hc
  exact h column

theorem margin_painted {width : Nat} {active : List OpenLabel}
    (h : ∀ e ∈ active, 2 * e.slot < width) :
    ∃ lead, margin width active = .ok lead ∧ lead.length = width ∧ Painted width lead := by
  refine ⟨_, ?_, ?_, painted_range_map (marginCell_isFrame active)⟩
  · rw [margin, checkMargin_eq_ok h]
    rfl
  · rw [List.length_map, List.length_range]

theorem jointMargin_painted {width : Nat} {active : List OpenLabel} (joints : List Joint)
    (h : ∀ e ∈ active, 2 * e.slot < width) :
    ∃ lead, jointMargin width active joints = .ok lead ∧ lead.length = width ∧
      Painted width lead := by
  cases joints with
  | nil => exact margin_painted h
  | cons j rest =>
    refine ⟨_, ?_, ?_, painted_range_map (jointCell_isFrame width active (leftmost j rest) (j :: rest))⟩
    · rw [jointMargin, checkMargin_eq_ok h]
      rfl
    · rw [List.length_map, List.length_range]

theorem closingMargin_painted {width : Nat} {active : List OpenLabel} {entry : OpenLabel}
    (h : ∀ e ∈ active, 2 * e.slot < width) (hentry : 2 * entry.slot < width) :
    ∃ lead, closingMargin width active entry = .ok lead ∧ lead.length = width ∧
      Painted width lead := by
  have hall : ∀ e ∈ active ++ [entry], 2 * e.slot < width := by
    rw [List.forall_mem_append, List.forall_mem_singleton]
    exact ⟨h, hentry⟩
  refine ⟨_, ?_, ?_, painted_range_map (closingCell_isFrame width active entry)⟩
  · rw [closingMargin, checkMargin_eq_ok hall]
    rfl
  · rw [List.length_map, List.length_range]

theorem putCell_painted {width column : Nat} {row : List Cell} (role : Glyph) (color : Color)
    (h : Painted width row) (hcolumn : column < width) :
    ∃ row', putCell row column (.drawn role color) = .ok row' ∧ Painted width row' := by
  obtain ⟨hwidth, hframe⟩ := h
  refine ⟨row.set column (.drawn role color), ?_, ?_, ?_⟩
  · rw [putCell, if_pos (by omega)]
  · rw [List.length_set]
    exact hwidth
  · intro c hc
    rcases List.mem_or_eq_of_mem_set hc with hc | rfl
    · exact hframe c hc
    · exact Cell.isFrame_drawn role color

theorem widen_painted {width n : Nat} {row : List Cell} (h : Painted width row) :
    Painted (max width n) (widen n row) := by
  obtain ⟨hwidth, hframe⟩ := h
  constructor
  · rw [widen, List.length_append, List.length_replicate]
    omega
  · intro c hc
    rcases List.mem_append.mp hc with hc | hc
    · exact hframe c hc
    · rw [List.eq_of_mem_replicate hc]
      exact Cell.isFrame_blank

theorem widen_nil_painted (n : Nat) : Painted n (widen n []) := by
  have hempty : Painted 0 [] := ⟨Nat.le_refl 0, by simp⟩
  have := widen_painted (n := n) hempty
  rwa [Nat.zero_max] at this

theorem Painted.mono {width n : Nat} {row : List Cell} (h : Painted width row) (hle : n ≤ width) :
    Painted n row :=
  ⟨Nat.le_trans hle h.width_le, h.frame⟩

theorem drawUnderline_painted {width : Nat} {row : List Cell} (t : Target) (h : Painted width row) :
    ∃ row', drawUnderline row t = .ok row' ∧ Painted width row' := by
  obtain ⟨row', hrow, hpainted⟩ := foldlM_invariant
    (fun row column => putCell row column (.drawn .underline t.label.color))
    (List.range' t.startColumn (t.endColumn - t.startColumn)) (Painted (max width t.endColumn))
    (fun row column hcolumn hrow => putCell_painted _ _ hrow (by
      have := List.mem_range'_1.mp hcolumn
      omega))
    (widen_painted h)
  exact ⟨row', hrow, hpainted.mono (Nat.le_max_left _ _)⟩

theorem drawUnderlines_painted {width : Nat} {row : List Cell} (targets : List Target)
    (h : Painted width row) :
    ∃ row', drawUnderlines row targets = .ok row' ∧ Painted width row' :=
  foldlM_invariant _ _ (Painted width) (fun _ t _ hrow => drawUnderline_painted t hrow) h

theorem column_le_lastColumn {anchors : List Anchor} {a : Anchor} (h : a ∈ anchors) :
    a.column ≤ lastColumn anchors :=
  le_foldr_max (.inr (List.mem_map.mpr ⟨a, h, rfl⟩))

theorem underlineCells_painted (underlines : Bool) (targets : List Target)
    (anchors : List Anchor) :
    ∃ row, underlineCells underlines targets anchors = .ok row ∧
      Painted (lastColumn anchors + 1) row := by
  have hempty := widen_nil_painted (lastColumn anchors + 1)
  have hanchors : ∀ row, Painted (lastColumn anchors + 1) row →
      ∃ row', drawAnchors row anchors = .ok row' ∧ Painted (lastColumn anchors + 1) row' :=
    fun row hrow => foldlM_invariant _ _ (Painted (lastColumn anchors + 1))
      (fun row a ha hrow => putCell_painted _ _ hrow (Nat.lt_succ_of_le (column_le_lastColumn ha)))
      hrow
  cases underlines with
  | true =>
    obtain ⟨lined, hlined, hpainted⟩ := drawUnderlines_painted targets hempty
    obtain ⟨row, hrow, hpainted⟩ := hanchors lined hpainted
    refine ⟨row, ?_, hpainted⟩
    rw [underlineCells, if_pos rfl, hlined]
    exact hrow
  | false => exact hanchors _ hempty

theorem lt_connectorStop (anchor : Anchor) (waiting : List Anchor) :
    anchor.column < connectorStop anchor waiting := by
  have hstop : anchor.column + 2 ≤ connectorStop anchor waiting := le_foldr_max (.inl rfl)
  omega

/-- The connector of a message reaches over every message that is still to come. -/
theorem waiting_lt_connectorStop {anchor w : Anchor} {waiting : List Anchor} (h : w ∈ waiting) :
    w.column < connectorStop anchor waiting := by
  rcases Nat.lt_or_ge anchor.column w.column with hlt | hge
  · have hmem : w ∈ waiting.filter fun w => anchor.column < w.column :=
      List.mem_filter.mpr ⟨h, decide_eq_true hlt⟩
    have hstop : w.column + 1 ≤ connectorStop anchor waiting :=
      le_foldr_max (.inr (List.mem_map.mpr ⟨w, hmem, rfl⟩))
    omega
  · have := lt_connectorStop anchor waiting
    omega

theorem drawStretch_painted {width column : Nat} {row : List Cell} (color : Color)
    (h : Painted width row) (hcolumn : column < width) :
    ∃ row', drawStretch color row column = .ok row' ∧ Painted width row' := by
  unfold drawStretch
  split
  · exact putCell_painted _ _ h hcolumn
  · rw [if_pos (Nat.lt_of_lt_of_le hcolumn h.width_le)]
    exact ⟨row, rfl, h⟩

/-- Nothing but the message itself is text in the row of a message. -/
theorem messageCells_painted (anchor : Anchor) (waiting : List Anchor) :
    ∃ row, messageCells anchor waiting =
        .ok (row ++ .blank :: Cell.plain anchor.target.label.message) ∧
      Painted (connectorStop anchor waiting + 1) row := by
  have hanchor := lt_connectorStop anchor waiting
  obtain ⟨barred, hbarred, hpainted⟩ := foldlM_invariant
    (fun row (w : Anchor) => putCell row w.column (.drawn .vbar w.target.label.color)) waiting
    (Painted (connectorStop anchor waiting + 1))
    (fun row w hw hrow => putCell_painted _ _ hrow
      (Nat.lt_succ_of_lt (waiting_lt_connectorStop hw)))
    (widen_nil_painted (connectorStop anchor waiting + 1))
  obtain ⟨turned, hturned, hpainted⟩ := putCell_painted .lbot anchor.target.label.color hpainted
    (Nat.lt_succ_of_lt hanchor)
  obtain ⟨row, hrow, hpainted⟩ := foldlM_invariant (drawStretch anchor.target.label.color)
    (List.range' (anchor.column + 1) (connectorStop anchor waiting - anchor.column))
    (Painted (connectorStop anchor waiting + 1))
    (fun row column hcolumn hrow => drawStretch_painted _ hrow (by
      have := List.mem_range'_1.mp hcolumn
      omega))
    hpainted
  refine ⟨row, ?_, hpainted⟩
  simp only [messageCells, hbarred, hturned, hrow, bind, Except.bind, pure, Except.pure]

end Callout

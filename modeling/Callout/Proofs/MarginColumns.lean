import Callout.Layout.Row
import Callout.Proofs.PaintedCells
import Mathlib.Data.List.Nodup

namespace Callout

theorem getElem?_trimBlanks {row : List Cell} {c : Nat} {cell : Cell} (hcell : cell ≠ .blank) :
    (trimBlanks row)[c]? = some cell ↔ row[c]? = some cell := by
  obtain ⟨n, hrow⟩ := exists_trimmed_blanks row
  conv_rhs => rw [hrow]
  rcases Nat.lt_or_ge c (trimBlanks row).length with hlt | hge
  · rw [List.getElem?_append_left hlt]
  · rw [List.getElem?_append_right hge, List.getElem?_eq_none hge]
    refine iff_of_false (by simp) fun htaken => ?_
    exact hcell (List.eq_of_mem_replicate (List.mem_of_getElem? htaken))

theorem Cell.drawn_ne_blank (glyph : Glyph) (color : Color) : drawn glyph color ≠ blank := by
  simp [drawn, blank]

/-- A row whose first columns are given one by one. -/
def Row.Leads (row : Row) (width : Nat) (cell : Nat → Cell) : Prop :=
  ∃ rest, row.body = trimBlanks ((List.range width).map cell ++ rest)

theorem Row.Leads.getElem? {row : Row} {width c : Nat} {cell : Nat → Cell} {glyph : Glyph}
    {color : Color} (h : row.Leads width cell) (hc : c < width)
    (hcell : cell c = .drawn glyph color) : row.body[c]? = some (.drawn glyph color) := by
  obtain ⟨rest, hbody⟩ := h
  rw [hbody, getElem?_trimBlanks (Cell.drawn_ne_blank glyph color),
    List.getElem?_append_left (by simpa using hc), List.getElem?_map, List.getElem?_range hc,
    Option.map_some, hcell]

/-- The connector of a label of some color runs through a column, and may be crossed there. -/
def Carries (row : List Cell) (column : Nat) (color : Color) : Prop :=
  row[column]? = some (.drawn .vbar color) ∨ row[column]? = some (.drawn .xbar color)

theorem Row.Leads.carries {row : Row} {width c : Nat} {cell : Nat → Cell} {color : Color}
    (h : row.Leads width cell) (hc : c < width)
    (hcell : cell c = .drawn .vbar color ∨ cell c = .drawn .xbar color) :
    Carries row.body c color :=
  hcell.imp (h.getElem? hc) (h.getElem? hc)

/-- Among things with slots of their own the one of a column is found. -/
theorem find?_slot_of_mem {α : Type} {slot : α → Nat} {xs : List α} {x : α}
    (hslots : (xs.map slot).Nodup) (hx : x ∈ xs) :
    xs.find? (fun y => 2 * slot y == 2 * slot x) = some x := by
  cases hfound : xs.find? (fun y => 2 * slot y == 2 * slot x) with
  | none =>
    have hnone := List.find?_eq_none.mp hfound x hx
    simp at hnone
  | some y =>
    have hcolumn := List.find?_some hfound
    have hslot : slot y = slot x := by
      rw [beq_iff_eq] at hcolumn
      omega
    rw [List.inj_on_of_nodup_map hslots (List.mem_of_find?_eq_some hfound) hx hslot]

section Margin

variable {width : Nat} {active : List OpenLabel} {e entry : OpenLabel}

theorem margin_eq (h : ∀ e ∈ active, 2 * e.slot < width) :
    margin width active = .ok ((List.range width).map (marginCell active)) := by
  rw [margin, checkMargin_eq_ok h]
  rfl

theorem eq_of_closingMargin {lead : List Cell} (h : closingMargin width active entry = .ok lead) :
    lead = (List.range width).map (closingCell width active entry) := by
  obtain ⟨_, _, h⟩ := bind_eq_ok_iff.mp h
  cases h
  rfl

theorem connectorAt_of_mem (hslots : (active.map OpenLabel.slot).Nodup) (he : e ∈ active) :
    connectorAt active (2 * e.slot) = some e :=
  find?_slot_of_mem hslots he

theorem marginCell_of_mem (hslots : (active.map OpenLabel.slot).Nodup) (he : e ∈ active) :
    marginCell active (2 * e.slot) = .drawn .vbar e.color := by
  rw [marginCell, connectorAt_of_mem hslots he]

theorem closingCell_entry : closingCell width active entry (2 * entry.slot) =
    .drawn .lbot entry.color := by
  rw [closingCell, if_pos rfl]

/-- Right of the label that ends, an open label is crossed. -/
theorem closingCell_crossed {column : Nat} (hleft : 2 * entry.slot < column)
    (hright : column + 2 ≤ width) (he : connectorAt active column = some e) :
    closingCell width active entry column = .drawn .xbar e.color := by
  rw [closingCell, if_neg (by omega), if_neg (by omega), he]

theorem closingCell_bar {column : Nat} (hleft : 2 * entry.slot < column)
    (hright : column + 2 ≤ width) (hnone : connectorAt active column = none) :
    closingCell width active entry column = .drawn .hbar entry.color := by
  rw [closingCell, if_neg (by omega), if_neg (by omega), hnone]

theorem closingCell_of_mem (hslots : (active.map OpenLabel.slot).Nodup) (he : e ∈ active)
    (hne : e.slot ≠ entry.slot) (hwidth : 2 * e.slot + 2 < width) :
    closingCell width active entry (2 * e.slot) = .drawn .vbar e.color ∨
      closingCell width active entry (2 * e.slot) = .drawn .xbar e.color := by
  rcases Nat.lt_or_ge e.slot entry.slot with hlt | hge
  · left
    rw [closingCell, if_neg (by omega), if_pos (by omega), marginCell_of_mem hslots he]
  · right
    exact closingCell_crossed (by omega) (by omega) (connectorAt_of_mem hslots he)

theorem leftmost_le {first j : Joint} {rest : List Joint} (h : j ∈ first :: rest) :
    (leftmost first rest).slot ≤ j.slot := by
  have hbest : ∀ best : Joint, (leftmost best rest).slot ≤ best.slot ∧
      ∀ j ∈ rest, (leftmost best rest).slot ≤ j.slot := by
    clear h
    induction rest with
    | nil => exact fun best => ⟨Nat.le_refl _, by simp⟩
    | cons k rest ih =>
      intro best
      obtain ⟨hnext, hrest⟩ := ih (if k.slot < best.slot then k else best)
      have hstep : leftmost best (k :: rest) =
          leftmost (if k.slot < best.slot then k else best) rest := rfl
      have hle : (if k.slot < best.slot then k else best).slot ≤ best.slot ∧
          (if k.slot < best.slot then k else best).slot ≤ k.slot := by
        split <;> omega
      rw [hstep]
      refine ⟨by omega, fun j hj => ?_⟩
      rcases List.mem_cons.mp hj with rfl | hj
      · omega
      · exact hrest j hj
  rcases List.mem_cons.mp h with rfl | h
  · exact (hbest _).1
  · exact (hbest first).2 j h

/-- A column of the margin of a row of code, with or without joints. -/
def codeCell (width : Nat) (active : List OpenLabel) (joints : List Joint) (column : Nat) : Cell :=
  match joints with
  | [] => marginCell active column
  | j :: rest => jointCell width active (leftmost j rest) (j :: rest) column

theorem jointMargin_eq (joints : List Joint) (h : ∀ e ∈ active, 2 * e.slot < width) :
    jointMargin width active joints =
      .ok ((List.range width).map (codeCell width active joints)) := by
  cases joints with
  | nil => exact margin_eq h
  | cons j rest =>
    rw [jointMargin, checkMargin_eq_ok h]
    rfl

variable {joints : List Joint} {j : Joint}

theorem codeCell_of_joint (hslots : (joints.map Joint.slot).Nodup) (hj : j ∈ joints)
    (hwidth : 2 * j.slot + 2 < width) :
    codeCell width active joints (2 * j.slot) = .drawn j.glyph j.color := by
  cases joints with
  | nil => cases hj
  | cons first rest =>
    have hle := leftmost_le hj
    rw [codeCell, jointCell, if_neg (by omega), if_neg (by omega), find?_slot_of_mem hslots hj]

theorem codeCell_of_mem (hslots : (active.map OpenLabel.slot).Nodup) (he : e ∈ active)
    (hnone : ∀ j ∈ joints, j.slot ≠ e.slot) (hwidth : 2 * e.slot + 2 < width) :
    codeCell width active joints (2 * e.slot) = .drawn .vbar e.color ∨
      codeCell width active joints (2 * e.slot) = .drawn .xbar e.color := by
  cases joints with
  | nil => exact .inl (marginCell_of_mem hslots he)
  | cons first rest =>
    have hfind : (first :: rest).find? (fun k => 2 * k.slot == 2 * e.slot) = none := by
      rw [List.find?_eq_none]
      intro k hk hslot
      exact hnone k hk (by have := eq_of_beq hslot; omega)
    rw [codeCell, jointCell, if_neg (by omega)]
    split
    next => exact .inl (marginCell_of_mem hslots he)
    next =>
      right
      rw [hfind, connectorAt_of_mem hslots he]

/-- Nothing is blank from a joint to the arrow. -/
theorem codeCell_drawn (active : List OpenLabel) {column : Nat} (hj : j ∈ joints) (hleft : 2 * j.slot ≤ column)
    (hright : column + 2 ≤ width) :
    ∃ glyph color, codeCell width active joints column = .drawn glyph color := by
  cases joints with
  | nil => cases hj
  | cons first rest =>
    have hle := leftmost_le hj
    rw [codeCell, jointCell]
    split
    next => exact ⟨_, _, rfl⟩
    next =>
      rw [if_neg (by omega)]
      split
      next => exact ⟨_, _, rfl⟩
      next => split <;> exact ⟨_, _, rfl⟩

theorem codeCell_arrow (active : List OpenLabel) {column : Nat} (hj : j ∈ joints)
    (hcolumn : column + 2 = width) :
    ∃ color, codeCell width active joints column = .drawn .rarrow color := by
  cases joints with
  | nil => cases hj
  | cons first rest =>
    rw [codeCell, jointCell, if_pos hcolumn]
    exact ⟨_, rfl⟩

end Margin

end Callout

import Callout.Proofs.CodeRow
import Callout.Proofs.GlyphOwners
import Callout.Proofs.RowTexts

namespace Callout

variable {width column line : Nat} {glyph : Glyph} {color : Color}

theorem lead_cases {cell : Nat → Cell} {rest : List Cell}
    (h : (trimBlanks ((List.range width).map cell ++ rest))[column]? = some (.drawn glyph color)) :
    cell column = .drawn glyph color ∨
      ∃ c, column = width + c ∧ rest[c]? = some (.drawn glyph color) := by
  rw [getElem?_trimBlanks (Cell.drawn_ne_blank glyph color)] at h
  have hlength : ((List.range width).map cell).length = width := by simp
  rcases Nat.lt_or_ge column width with hlt | hge
  · left
    rw [List.getElem?_append_left (by omega), List.getElem?_map, List.getElem?_range hlt,
      Option.map_some, Option.some_inj] at h
    exact h
  · right
    rw [List.getElem?_append_right (by omega), hlength] at h
    exact ⟨column - width, by omega, h⟩

theorem getElem?_of_trimBlanks {cells : List Cell} {cell : Cell}
    (h : (trimBlanks cells)[column]? = some cell) : cells[column]? = some cell := by
  obtain ⟨rest, hrest⟩ : trimBlanks cells <+: cells := List.rdropWhile_prefix (· == Cell.blank) cells
  have hlt := (List.getElem?_eq_some_iff.mp h).1
  rwa [← hrest, List.getElem?_append_left hlt]

theorem not_drawn_of_text {cells : List Cell} (h : ∀ cell ∈ cells, ∃ c, cell.mark = .text c) :
    ¬cells[column]? = some (.drawn glyph color) := by
  intro hcell
  obtain ⟨c, hc⟩ := h _ (List.mem_of_getElem? hcell)
  cases hc

theorem mem_messageRows {as : List Anchor} {rows : List (Anchor × List Cell)} {a : Anchor}
    {cells : List Cell} (h : messageRows as = .ok rows) (hmem : (a, cells) ∈ rows) :
    ∃ drawn waiting, as = drawn ++ a :: waiting ∧ messageCells a waiting = .ok cells := by
  induction as generalizing rows with
  | nil =>
    cases h
    cases hmem
  | cons b waiting ih =>
    obtain ⟨first, hfirst, h⟩ := bind_eq_ok_iff.mp h
    obtain ⟨more, hmore, h⟩ := bind_eq_ok_iff.mp h
    cases h
    rcases List.mem_cons.mp hmem with heq | hmem
    · cases heq
      exact ⟨[], waiting, rfl, hfirst⟩
    · obtain ⟨drawn, rest, rfl, hcells⟩ := ih hmore hmem
      exact ⟨b :: drawn, rest, rfl, hcells⟩

theorem pointerRows_cases {config : Config} {active : List OpenLabel} {targets : List Target}
    {rows : List Row} {row : Row} (hfits : ∀ e ∈ active, 2 * e.slot < width)
    (h : Placement.pointerRows config width active line targets = .ok rows) (hrow : row ∈ rows) :
    (∃ cells, underlineCells config.underlines targets (anchors config.attach targets) = .ok cells ∧
      row = ⟨.underlines line, trimBlanks ((List.range width).map (marginCell active) ++ cells)⟩) ∨
    ∃ drawn a waiting cells, (anchors config.attach targets).reverse = drawn ++ a :: waiting ∧
      messageCells a waiting = .ok cells ∧ row = ⟨.message line a.target.index,
        trimBlanks ((List.range width).map (marginCell active) ++ cells)⟩ := by
  unfold Placement.pointerRows at h
  split at h
  next =>
    cases h
    cases hrow
  next =>
    obtain ⟨underlines, hunderlines, h⟩ := bind_eq_ok_iff.mp h
    obtain ⟨lead, hlead, h⟩ := bind_eq_ok_iff.mp h
    obtain ⟨messages, hmessages, h⟩ := bind_eq_ok_iff.mp h
    cases (margin_eq hfits).symm.trans hlead
    cases h
    rcases List.mem_cons.mp hrow with rfl | hrow
    · exact .inl ⟨underlines, hunderlines, rfl⟩
    · obtain ⟨⟨a, cells⟩, hmem, rfl⟩ := List.mem_map.mp hrow
      obtain ⟨drawn, waiting, horder, hcells⟩ := mem_messageRows hmessages hmem
      exact .inr ⟨drawn, a, waiting, cells, horder, hcells, rfl⟩

theorem spacerRow_eq {active : List OpenLabel} {rows : List Row} {row : Row}
    (hfits : ∀ e ∈ active, 2 * e.slot < width)
    (h : Placement.spacerRow width active line = .ok rows) (hrow : row ∈ rows) :
    row = ⟨.spacer line, trimBlanks ((List.range width).map (marginCell active) ++ [])⟩ := by
  unfold Placement.spacerRow at h
  split at h
  next =>
    cases h
    cases hrow
  next =>
    obtain ⟨lead, hlead, h⟩ := bind_eq_ok_iff.mp h
    cases (margin_eq hfits).symm.trans hlead
    cases h
    rw [List.mem_singleton.mp hrow, List.append_nil]

namespace Placement

variable {p : Placement} {config : Config} {targets : List Target} {row : Row}

theorem LineBlock.target_color (b : LineBlock p config line) (hline : line < p.source.lines.length)
    (haligned : p.AlignedOn line) {t : Target} (ht : t ∈ b.targets) :
    ∃ l, p.labels[t.index]? = some l ∧ t.label.color = l.label.color := by
  obtain ⟨l, hl, _, _, hlabel, _⟩ := mem_targets (b.targets_eq_singles hline haligned) ht
  exact ⟨l, hl, by rw [hlabel]⟩

theorem LineBlock.pointers_colored (b : LineBlock p config line)
    (hline : line < p.source.lines.length) (haligned : p.AlignedOn line) (hrow : row ∈ b.pointers)
    (hcell : row.body[column]? = some (.drawn glyph color)) :
    p.ColoredFor config.attach line b.targets row.role glyph column color := by
  have hcolor : ∀ t ∈ b.targets, ∃ l, p.labels[t.index]? = some l ∧ t.label.color = l.label.color :=
    fun t ht => b.target_color hline haligned ht
  rcases pointerRows_cases openList_fits b.pointers_eq hrow with
    ⟨cells, hcells, rfl⟩ | ⟨drawn, a, waiting, cells, horder, hcells, rfl⟩
  · rcases lead_cases hcell with hmargin | ⟨c, rfl, hc⟩
    · obtain ⟨i, l, hl, rfl, hbeside⟩ := beside_colored hmargin
      exact ⟨i, l, hl, rfl, .inl hbeside⟩
    · rcases underlineCells_cases hcells hc (Cell.drawn_ne_blank glyph color) with
        ⟨a, ha, rfl, hdrawn⟩ | ⟨t, ht, hcovers, hinner, hdrawn⟩
      · obtain ⟨rfl, rfl⟩ := Cell.drawn_inj.mp hdrawn
        obtain ⟨l, hl, heq⟩ := hcolor _ (mem_anchors_target ha)
        exact ⟨a.target.index, l, hl, heq, .inr ⟨a, ha, rfl, rfl⟩⟩
      · obtain ⟨rfl, rfl⟩ := Cell.drawn_inj.mp hdrawn
        obtain ⟨l, hl, heq⟩ := hcolor t ht
        exact ⟨t.index, l, hl, heq, .inr ⟨c, rfl, t, ht, rfl, hcovers, hinner⟩⟩
  · have ha : a ∈ anchors config.attach b.targets := by
      rw [← List.mem_reverse, horder]
      simp
    rcases lead_cases hcell with hmargin | ⟨c, rfl, hc⟩
    · obtain ⟨i, l, hl, rfl, hbeside⟩ := beside_colored hmargin
      exact ⟨i, l, hl, rfl, .inl hbeside⟩
    · obtain ⟨l, hl, heq⟩ := hcolor _ (mem_anchors_target ha)
      rcases messageCells_eq_drawn hcells hc with
        ⟨rfl, w, hw, rfl, rfl⟩ | ⟨rfl, rfl, rfl⟩ | ⟨rfl, hright, rfl⟩
      · obtain ⟨m, hm, hwcolor⟩ := hcolor _ (mem_anchors_target (mem_waiting horder hw))
        exact ⟨w.target.index, m, hm, hwcolor, .inr ⟨drawn, a, waiting, horder, rfl, w, hw, rfl, rfl⟩⟩
      · exact ⟨a.target.index, l, hl, heq, .inr ⟨rfl, a, ha, rfl, rfl⟩⟩
      · exact ⟨a.target.index, l, hl, heq, .inr ⟨rfl, a, ha, rfl, Nat.add_lt_add_left hright _⟩⟩

theorem gap_row_colored {attach : Attach} (h : p.gapRow (p.openBy line) = .ok row)
    (hcell : row.body[column]? = some (.drawn glyph color)) :
    p.ColoredFor attach line targets row.role glyph column color := by
  have hfits : ∀ e ∈ p.openBy line, 2 * e.slot < p.marginWidth := openList_fits
  obtain ⟨lead, hlead, h⟩ := bind_eq_ok_iff.mp h
  cases (margin_eq hfits).symm.trans hlead
  cases h
  rw [← List.append_nil (List.map _ _)] at hcell
  rcases lead_cases hcell with hmargin | ⟨c, _, hc⟩
  · exact gap_colored hmargin
  · cases hc

theorem closing_row_colored {attach : Attach} {e : OpenLabel} (he : e ∈ p.openOn line)
    (h : p.closingRow line (p.openBelow line e.index) e = .ok row)
    (hcell : row.body[column]? = some (.drawn glyph color)) :
    p.ColoredFor attach line targets row.role glyph column color := by
  obtain ⟨lead, hlead, h⟩ := bind_eq_ok_iff.mp h
  cases eq_of_closingMargin hlead
  cases h
  rcases lead_cases hcell with hmargin | ⟨c, _, hc⟩
  · exact closing_colored he hmargin
  · refine absurd hc (not_drawn_of_text fun cell hcell => ?_)
    obtain ⟨c, _, rfl⟩ := List.mem_map.mp hcell
    exact ⟨c, rfl⟩

/-- In the rows of a line every drawn character has the color of a label that it is for. -/
theorem LineBlock.colored (b : LineBlock p config line) (hline : line < p.source.lines.length)
    (haligned : p.AlignedOn line) (hrow : row ∈ b.rows)
    (hcell : row.body[column]? = some (.drawn glyph color)) :
    p.ColoredFor config.attach line b.targets row.role glyph column color := by
  have hfits : ∀ e ∈ p.openOn line, 2 * e.slot < p.marginWidth := openList_fits
  rcases List.mem_cons.mp hrow with rfl | hrow
  · have hlead : b.lead = (List.range p.marginWidth).map (p.codeMargin line) :=
      (Except.ok.inj ((jointMargin_eq _ hfits).symm.trans b.lead_eq)).symm
    rw [hlead] at hcell
    rcases lead_cases hcell with hmargin | ⟨c, _, hc⟩
    · exact code_colored hmargin
    · refine absurd hc (not_drawn_of_text fun cell hcell => ?_)
      obtain ⟨f, _, hcell⟩ := List.mem_flatMap.mp hcell
      obtain ⟨c, _, rfl⟩ := List.mem_map.mp hcell
      exact ⟨c, rfl⟩
  rcases List.mem_append.mp hrow with hrow | hrow
  · rcases List.mem_append.mp hrow with hrow | hrow
    · exact b.pointers_colored hline haligned hrow hcell
    · rw [spacerRow_eq hfits b.spacer_eq hrow] at hcell ⊢
      rcases lead_cases hcell with hmargin | ⟨c, _, hc⟩
      · exact beside_colored hmargin
      · cases hc
  · obtain ⟨e, he, hclosing⟩ := forall₂_mem_right b.closing_rows hrow
    exact closing_row_colored (mem_endingAt_iff.mp (List.mem_reverse.mp he)).1 hclosing hcell

/-- The color of a piece of code: that of its label, and the color of the gutter if it has no label or
its label has no color of its own. -/
def codeColor (p : Placement) (owner : Option Nat) : Color :=
  match owner.bind fun i => p.labels[i]? with
  | none => .basic .brightBlack
  | some l => if l.label.color = .default then .basic .brightBlack else l.label.color

theorem fragment_color {index : Int} {found : Line} {marks : List (Nat × Span)} {piece : Nat × Nat}
    {f : Fragment} (h : p.fragment index found marks piece = .ok f) :
    (if f.color = .default then gutterColor else f.color) = p.codeColor f.owner := by
  obtain ⟨text, _, h⟩ := bind_eq_ok_iff.mp h
  obtain ⟨span, _, h⟩ := bind_eq_ok_iff.mp h
  cases h
  simp only [codeColor]
  cases (Option.map Prod.fst (innermost marks piece)).bind fun i => p.labels[i]? with
  | none => rfl
  | some l => rfl

theorem codeCells_eq {index : Int} {fragments : List Fragment} (h : p.fragments index = .ok fragments) :
    codeCells fragments =
      fragments.flatMap fun f => Cell.ofText (some (p.codeColor f.owner)) f.display := by
  obtain ⟨found, _, h⟩ := bind_eq_ok_iff.mp h
  obtain ⟨marks, _, h⟩ := bind_eq_ok_iff.mp h
  refine List.flatMap_congr fun f hf => ?_
  obtain ⟨piece, _, hpiece⟩ := exists_of_mem_mapM h hf
  rw [fragment_color hpiece]

/-- A row of a line in which every cell has its own color. A drawn character has the color of the one
label that it is for, the code has the colors of its pieces, and other text has no color. -/
structure OwnColors (p : Placement) (config : Config) (line : Nat) (targets : List Target) (row : Row) :
    Prop where
  glyph : ∀ column glyph color, row.body[column]? = some ⟨.glyph glyph, color⟩ →
    ∃ i l, p.labels[i]? = some l ∧ color = some l.label.color ∧
      ∀ j, p.DrawnFor config.attach line targets row.role glyph column j ↔ j = i
  code : row.role = .code line → ∃ fragments, p.fragments line = .ok fragments ∧
    row.body.drop p.marginWidth =
      fragments.flatMap fun f => Cell.ofText (some (p.codeColor f.owner)) f.display
  text : ∀ column c color, row.body[column]? = some ⟨.text c, color⟩ →
    row.role = .code line ∧ p.marginWidth ≤ column ∨ color = none

theorem glyph_of_colored {attach : Attach} {cell : Option Color}
    (hdrawn : (⟨.glyph glyph, cell⟩ : Cell).IsFrame)
    (hcolored : ∀ color, (⟨.glyph glyph, cell⟩ : Cell) = .drawn glyph color →
      p.ColoredFor attach line targets row.role glyph column color) :
    ∃ i l, p.labels[i]? = some l ∧ cell = some l.label.color ∧
      ∀ j, p.DrawnFor attach line targets row.role glyph column j ↔ j = i := by
  rcases hdrawn with heq | ⟨role, color, heq⟩
  · cases heq
  · cases heq
    obtain ⟨i, l, hl, rfl, hfor⟩ := hcolored color rfl
    refine ⟨i, l, hl, rfl, fun j => ⟨fun hj => hj.unique hfor, ?_⟩⟩
    rintro rfl
    exact hfor

theorem color_of_isFrame {c : Char} {cell : Option Color} (h : (⟨.text c, cell⟩ : Cell).IsFrame) :
    cell = none := by
  rcases h with heq | ⟨role, color, heq⟩
  · cases heq
    rfl
  · cases heq

/-- Where a row of a line is not code, it holds drawn cells, and texts without a color. -/
theorem LineBlock.plain_cells (b : LineBlock p config line) (hline : line < p.source.lines.length)
    (haligned : p.AlignedOn line) (hrow : row ∈ b.pointers ++ b.spacer ++ b.closing) :
    row.role ≠ .code line ∧ ∀ cell ∈ row.body, cell.IsFrame ∨ ∃ c, cell = ⟨.text c, none⟩ := by
  have hmessage : ∀ i, p.ShowsLabel i row →
      ∀ cell ∈ row.body, cell.IsFrame ∨ ∃ c, cell = ⟨.text c, none⟩ := by
    intro i hshows cell hcell
    obtain ⟨_, _, hmessage⟩ := hshows.isMessage
    obtain ⟨lead, hlead, hbody⟩ := hmessage.body_eq
    rw [hbody] at hcell
    rcases List.mem_append.mp (mem_trimBlanks hcell) with hcell | hcell
    · exact .inl (hlead cell hcell)
    · obtain ⟨c, _, rfl⟩ := List.mem_map.mp hcell
      exact .inr ⟨c, rfl⟩
  rcases List.mem_append.mp hrow with hrow | hrow
  · refine ⟨(b.pointers_lead hrow).1 line, ?_⟩
    rcases List.mem_append.mp hrow with hrow | hrow
    · rcases (b.pointers_shown hline haligned).2 row hrow with hbare | ⟨i, _, _, hshows⟩
      · exact fun cell hcell => .inl (hbare.frame cell hcell)
      · exact hmessage i hshows
    · exact fun cell hcell => .inl ((b.spacer_shown.2 row hrow).frame cell hcell)
  · obtain ⟨i, hrole, hshows⟩ := b.closing_shown.2 row hrow
    exact ⟨by simp [hrole], hmessage i hshows⟩

theorem LineBlock.ownColors (b : LineBlock p config line) (hline : line < p.source.lines.length)
    (haligned : p.AlignedOn line) (hrow : row ∈ b.rows) : p.OwnColors config line b.targets row := by
  have hcolored : ∀ column glyph color, row.body[column]? = some (.drawn glyph color) →
      p.ColoredFor config.attach line b.targets row.role glyph column color :=
    fun column glyph color hcell => b.colored hline haligned hrow hcell
  rcases List.mem_cons.mp hrow with rfl | hrow
  · have hcode : ∀ column cell, (trimBlanks (b.lead ++ codeCells b.fragments))[column]? = some cell →
        cell.IsFrame ∨ p.marginWidth ≤ column ∧ ∃ c, cell.mark = .text c := by
      intro column cell hcell
      have hcell := getElem?_of_trimBlanks hcell
      rcases Nat.lt_or_ge column b.lead.length with hlt | hge
      · rw [List.getElem?_append_left hlt] at hcell
        exact .inl (b.lead_frame cell (List.mem_of_getElem? hcell))
      · rw [List.getElem?_append_right hge] at hcell
        obtain ⟨f, _, hmem⟩ := List.mem_flatMap.mp (List.mem_of_getElem? hcell)
        obtain ⟨c, _, rfl⟩ := List.mem_map.mp hmem
        exact .inr ⟨b.lead_length ▸ hge, c, rfl⟩
    refine ⟨fun column glyph color hcell => ?_, fun _ => ⟨b.fragments, b.fragments_eq, ?_⟩,
      fun column c color hcell => ?_⟩
    · rcases hcode _ _ hcell with hframe | ⟨_, c, hmark⟩
      · exact glyph_of_colored hframe fun color heq => hcolored _ _ _ (heq ▸ hcell)
      · cases hmark
    · rw [← codeCells_eq b.fragments_eq]
      exact drop_trimBlanks b.fragments b.lead_length
    · rcases hcode _ _ hcell with hframe | ⟨hright, _⟩
      · exact .inr (color_of_isFrame hframe)
      · exact .inl ⟨rfl, hright⟩
  · obtain ⟨hrole, hplain⟩ := b.plain_cells hline haligned hrow
    refine ⟨fun column glyph color hcell => ?_, fun hcode => absurd hcode hrole,
      fun column c color hcell => ?_⟩
    · rcases hplain _ (List.mem_of_getElem? hcell) with hframe | ⟨c, heq⟩
      · exact glyph_of_colored hframe fun color heq => hcolored _ _ _ (heq ▸ hcell)
      · cases heq
    · right
      rcases hplain _ (List.mem_of_getElem? hcell) with hframe | ⟨c, heq⟩
      · exact color_of_isFrame hframe
      · cases heq
        rfl

/-- A row of a line, or the gap row above it, in its own colors. -/
def InLineColors (p : Placement) (config : Config) (line : Nat) (row : Row) : Prop :=
  (row.role = .gap ∨ row.role.line? = some line) ∧
    ∃ targets, p.targets line (p.touching line) = .ok targets ∧ p.OwnColors config line targets row

theorem LineBlock.line?_eq (b : LineBlock p config line) (hline : line < p.source.lines.length)
    (haligned : p.AlignedOn line) (hrow : row ∈ b.rows) : row.role.line? = some line := by
  obtain ⟨_, _, hblock⟩ := b.isBlock hline haligned
  exact hblock.line?_eq hrow

theorem IsChunk.inLineColors {chunk : List Row} (h : p.IsChunk config line chunk)
    (hline : line < p.source.lines.length) (haligned : p.AlignedOn line) (hrow : row ∈ chunk) :
    p.InLineColors config line row := by
  obtain ⟨gap, b, rfl, hgap⟩ := h
  rcases List.mem_append.mp hrow with hrow | hrow
  · rcases hgap with rfl | ⟨gapRow, rfl, hok, hbare⟩
    · cases hrow
    · rw [List.mem_singleton.mp hrow]
      refine ⟨.inl hbare.role_eq, b.targets, b.targets_eq, fun column glyph color hcell => ?_, ?_, ?_⟩
      · exact glyph_of_colored (hbare.frame _ (List.mem_of_getElem? hcell))
          fun color heq => gap_row_colored hok (heq ▸ hcell)
      · simp [hbare.role_eq]
      · exact fun column c color hcell =>
          .inr (color_of_isFrame (hbare.frame _ (List.mem_of_getElem? hcell)))
  · exact ⟨.inr (b.line?_eq hline haligned hrow), b.targets, b.targets_eq,
      b.ownColors hline haligned hrow⟩

end Placement

end Callout

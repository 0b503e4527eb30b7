import Callout.Proofs.LineColors
import Callout.Proofs.Terminal

namespace Callout

/-- A row of a note: a part of its message behind the category, which has the color of the note, or
behind blanks. No other part of the row has a color. -/
def Row.IsNotePart (row : Row) (note : Note) : Prop :=
  ∃ lead, ∃ part ∈ lineParts note.message.toList,
    row.body = Cell.ofText none lead ++ Cell.ofText (some note.color) note.category.toList ++
        Cell.ofText none ([':', ' '] ++ part) ∨
      row.body = Cell.ofText none (lead ++ part)

theorem noteRows_parts {role : Role} {lead : List Char} {note : Note} {row : Row}
    (h : row ∈ noteRows role lead note) : row.role = role ∧ row.IsNotePart note := by
  refine ⟨noteRows_role h, ?_⟩
  unfold noteRows at h
  split at h
  next => cases h
  next first rest hparts =>
    rcases List.mem_cons.mp h with rfl | h
    · exact ⟨lead, first, hparts ▸ List.mem_cons_self, .inl rfl⟩
    · obtain ⟨part, hpart, rfl⟩ := List.mem_map.mp h
      exact ⟨_, part, hparts ▸ List.mem_cons_of_mem _ hpart, .inr rfl⟩

/-- A row of a report in which every cell has its own color. Of a header only the severity and the code
have a color, and the text of a border has none. -/
def Canvas.InOwnColors (c : Canvas) (row : Row) : Prop :=
  let d := c.diagnostic
  match row.role with
  | .header => ∃ title, row.body = Cell.ofText (some (.basic d.severity.color)) title ++
      Cell.ofText none ([':', ' '] ++ d.message.toList)
  | .border => ∃ locus, row = borderRow d.sourceId locus
  | .note _ | .bareNote _ => ∃ note ∈ d.notes, row.IsNotePart note
  | .empty | .footer => row.body = []
  | _ => ∃ p line, c.placement = some p ∧ line ∈ p.relevantLines ∧ p.InLineColors d.config line row

/-- A diagnostic whose labels and notes have basic colors, or colors mixed from amounts of one byte each. -/
structure Diagnostic.ColorsInRange (d : Diagnostic) : Prop where
  labels : ∀ label ∈ d.labels, label.color.InRange
  notes : ∀ note ∈ d.notes, note.color.InRange

section Range

variable {p : Placement} {config : Config} {line : Nat} {row : Row}

theorem Placement.codeColor_inRange (h : ∀ l ∈ p.labels, l.label.color.InRange) (owner : Option Nat) :
    (p.codeColor owner).InRange := by
  unfold codeColor
  split
  next => trivial
  next l hl =>
    split
    next => trivial
    next =>
      obtain ⟨i, _, hi⟩ := Option.bind_eq_some_iff.mp hl
      exact h l (List.mem_of_getElem? hi)

theorem Placement.InLineColors.inRange (hrow : p.InLineColors config line row)
    (h : ∀ l ∈ p.labels, l.label.color.InRange) : ∀ cell ∈ row.body, cell.InRange := by
  intro cell hcell
  obtain ⟨_, targets, _, hown⟩ := hrow
  obtain ⟨column, hcolumn⟩ := List.mem_iff_getElem?.mp hcell
  obtain ⟨mark, color⟩ := cell
  cases mark with
  | glyph role =>
    obtain ⟨i, l, hl, rfl, _⟩ := hown.glyph column role color hcolumn
    intro found heq
    cases heq
    exact h l (List.mem_of_getElem? hl)
  | text c =>
    rcases hown.text column c color hcolumn with ⟨hcode, hright⟩ | rfl
    · obtain ⟨fragments, _, hdrop⟩ := hown.code hcode
      have hcell : (row.body.drop p.marginWidth)[column - p.marginWidth]? = some ⟨.text c, color⟩ := by
        rw [List.getElem?_drop, Nat.add_sub_cancel' hright]
        exact hcolumn
      rw [hdrop] at hcell
      obtain ⟨f, _, hf⟩ := List.mem_flatMap.mp (List.mem_of_getElem? hcell)
      exact inRange_ofText (p.codeColor_inRange h f.owner) _ _ hf
    · exact nofun

theorem Row.IsNotePart.inRange {note : Note} (hrow : row.IsNotePart note) (h : note.color.InRange) :
    ∀ cell ∈ row.body, cell.InRange := by
  obtain ⟨lead, part, _, hbody | hbody⟩ := hrow
  · rw [hbody, List.forall_mem_append, List.forall_mem_append]
    exact ⟨⟨inRange_plain _, inRange_ofText h _⟩, inRange_plain _⟩
  · rw [hbody]
    exact inRange_plain _

/-- In a row with its own colors, every color is that of a label or a note, or a basic one. -/
theorem Canvas.InOwnColors.inRange {catalog : Catalog} {d : Diagnostic} {c : Canvas}
    (hrow : c.InOwnColors row) (hcanvas : Canvas.ofDiagnostic catalog d = .ok c)
    (h : d.ColorsInRange) : ∀ cell ∈ row.body, cell.InRange := by
  have hd := Canvas.diagnostic_eq hcanvas
  obtain ⟨diagnostic, placement⟩ := c
  cases hd
  have hline : (∃ p line, placement = some p ∧ line ∈ p.relevantLines ∧
      p.InLineColors diagnostic.config line row) → ∀ cell ∈ row.body, cell.InRange := by
    rintro ⟨p, line, rfl, _, hcolors⟩
    obtain ⟨_, _, hp⟩ := Canvas.placed hcanvas
    exact hcolors.inRange fun l hl => h.labels _ ((Placement.mem_labels_iff hp).mpr ⟨l, hl, rfl⟩)
  obtain ⟨role, body⟩ := row
  cases role with
  | header =>
    obtain ⟨title, hbody⟩ := hrow
    have htitle : (Color.basic diagnostic.severity.color).InRange := trivial
    rw [hbody, List.forall_mem_append]
    exact ⟨inRange_ofText htitle _, inRange_plain _⟩
  | border =>
    obtain ⟨locus, hborder⟩ := hrow
    cases hborder
    exact inRange_plain _
  | note index =>
    obtain ⟨note, hnote, hpart⟩ := hrow
    exact hpart.inRange (h.notes note hnote)
  | bareNote index =>
    obtain ⟨note, hnote, hpart⟩ := hrow
    exact hpart.inRange (h.notes note hnote)
  | empty =>
    cases hrow
    exact nofun
  | footer =>
    cases hrow
    exact nofun
  | _ => exact hline hrow

end Range

section Report

variable {catalog : Catalog} {d : Diagnostic} {p : Placement} {text : String} {row : Row}

theorem Placement.InLineColors.inOwnColors {line : Nat} (hline : line ∈ p.relevantLines)
    (h : p.InLineColors d.config line row) : (⟨d, some p⟩ : Canvas).InOwnColors row := by
  have hinside := h.1
  obtain ⟨role, body⟩ := row
  cases role with
  | header => rcases hinside with heq | heq <;> cases heq
  | border => rcases hinside with heq | heq <;> cases heq
  | empty => rcases hinside with heq | heq <;> cases heq
  | note => rcases hinside with heq | heq <;> cases heq
  | bareNote => rcases hinside with heq | heq <;> cases heq
  | footer => rcases hinside with heq | heq <;> cases heq
  | _ => exact ⟨p, line, rfl, hline, h⟩

theorem header_inOwnColors (d : Diagnostic) (placement : Option Placement) :
    (⟨d, placement⟩ : Canvas).InOwnColors (Canvas.header ⟨d, none⟩) :=
  ⟨_, rfl⟩

theorem note_inOwnColors (placement : Option Placement) {role : Role} {lead : List Char} {note : Note}
    (hrole : (∃ i, role = .note i) ∨ ∃ i, role = .bareNote i) (hnote : note ∈ d.notes)
    (hrow : row ∈ noteRows role lead note) : (⟨d, placement⟩ : Canvas).InOwnColors row := by
  obtain ⟨hrow, hpart⟩ := noteRows_parts hrow
  rcases hrole with ⟨i, rfl⟩ | ⟨i, rfl⟩
  · rw [Canvas.InOwnColors, hrow]
    exact ⟨note, hnote, hpart⟩
  · rw [Canvas.InOwnColors, hrow]
    exact ⟨note, hnote, hpart⟩

/-- Every row of a report is in its own colors. -/
theorem rows_inOwnColors (h : render catalog d = .ok text) {c : Canvas} {rows : List Row}
    (hcanvas : Canvas.ofDiagnostic catalog d = .ok c) (hrows : c.rows = .ok rows) (hrow : row ∈ rows) :
    c.InOwnColors row := by
  have hd := Canvas.diagnostic_eq hcanvas
  obtain ⟨diagnostic, placement⟩ := c
  cases hd
  cases placement with
  | none =>
    cases hrows
    rcases List.mem_cons.mp hrow with rfl | hrow
    · exact header_inOwnColors diagnostic none
    · obtain ⟨⟨note, i⟩, hnote, hrow⟩ := List.mem_flatMap.mp hrow
      exact note_inOwnColors none (.inr ⟨i, rfl⟩) (List.fst_mem_of_mem_zipIdx hnote) hrow
  | some p =>
    obtain ⟨_, haligned, _⟩ := placement_of_render h hcanvas
    obtain ⟨locus, chunks, _, _, hframe, hchunks⟩ := exists_frame h hcanvas
    cases hrows.symm.trans hframe
    simp only [Canvas.frame, List.mem_append, List.mem_cons, List.not_mem_nil, or_false] at hrow
    rcases hrow with ((((rfl | rfl) | hrow) | rfl) | hrow) | rfl
    · exact header_inOwnColors diagnostic (some p)
    · exact ⟨locus, rfl⟩
    · obtain ⟨chunk, hchunk, hrow⟩ := List.mem_flatten.mp hrow
      obtain ⟨line, hline, hchunk⟩ := forall₂_mem_right hchunks hchunk
      exact (hchunk.inLineColors (Placement.lt_length_of_mem_relevantLines hline)
        (Placement.aligned_iff.mp haligned line hline) hrow).inOwnColors hline
    · rfl
    · obtain ⟨⟨note, i⟩, hnote, hrow⟩ := List.mem_flatMap.mp hrow
      exact note_inOwnColors (some p) (.inl ⟨i, rfl⟩) (List.fst_mem_of_mem_zipIdx hnote) hrow
    · rfl

/-- A report with colors, made of texts without escape characters, on a terminal that nothing was selected
on: the terminal shows the cells of every row, each in its own color on the default background, and when
a row ends nothing is selected any more. Amounts of mixed colors have to take one byte, since a terminal
knows no others. -/
theorem colors_of_render (h : render catalog d = .ok text) (hcolors : d.config.colors = true)
    (hfree : d.IsUnescaped catalog) (hrange : d.ColorsInRange) :
    let chars := d.config.charSet
    ∃ c rows, Canvas.ofDiagnostic catalog d = .ok c ∧ c.rows = .ok rows ∧
      text = String.ofList (rowsText chars true c.gutter rows) ∧
      Reads .default text.toList
        (rows.flatMap fun row => row.inColor chars c.gutter ++ [('\n', .default)]) .default ∧
      ∀ row ∈ rows, c.InOwnColors row ∧ Reads .default (row.text chars true c.gutter)
        (row.inColor chars c.gutter ++ [('\n', .default)]) .default := by
  intro chars
  obtain ⟨c, hcanvas, hrender⟩ := bind_eq_ok_iff.mp h
  obtain ⟨rows, hrows, _⟩ := bind_eq_ok_iff.mp hrender
  have hunescaped : ∀ row ∈ rows, '\x1b' ∉ row.body.map (Cell.shown chars) :=
    fun row hrow => escape_not_in_rows chars hfree hcanvas hrows hrow
  have hown : ∀ row ∈ rows, c.InOwnColors row := fun row hrow => rows_inOwnColors h hcanvas hrows hrow
  have hamounts : ∀ row ∈ rows, ∀ cell ∈ row.body, cell.InRange :=
    fun row hrow => (hown row hrow).inRange hcanvas hrange
  have htext : text = String.ofList (rowsText chars true c.gutter rows) := by
    cases h.symm.trans (render_of_rows_ok hcanvas hrows)
    rw [Canvas.text, Canvas.diagnostic_eq hcanvas, hcolors]
  refine ⟨c, rows, hcanvas, hrows, htext, ?_, fun row hrow => ⟨hown row hrow, ?_⟩⟩
  · rw [htext, String.toList_ofList]
    exact reads_rows c.gutter hamounts hunescaped
  · exact reads_row c.gutter (hamounts row hrow) (hunescaped row hrow)

/-- Labels and a note in mixed colors with the least and the greatest amounts, and one in a basic color. -/
def tinted : Diagnostic where
  sourceId := .name "letters"
  severity := .warning
  message := "tinted"
  code := some "W2"
  labels := [⟨.between 0 4, "first", .rgb 0 128 255⟩, ⟨.between 1 2, "", .basic .green⟩]
  notes := [⟨"", "one\ntwo", .rgb 1 2 3⟩]

theorem tinted_colors : tinted.config.colors = true ∧
    tinted.IsUnescaped ⟨[(.name "letters", letters)]⟩ ∧ tinted.ColorsInRange ∧
    ∃ text, ∃ c : Canvas, ∃ rows,
      render ⟨[(.name "letters", letters)]⟩ tinted = .ok text ∧ c.rows = .ok rows ∧
      Reads .default text.toList
        (rows.flatMap fun row => row.inColor .rounded c.gutter ++ [('\n', .default)]) .default ∧
      ∀ row ∈ rows, c.InOwnColors row := by
  have hfree : tinted.IsUnescaped ⟨[(.name "letters", letters)]⟩ := by
    refine ⟨by decide, ?_⟩
    intro source hsource
    cases hsource
    decide
  have hrange : tinted.ColorsInRange := ⟨by decide, by decide⟩
  have hsource : Catalog.find? ⟨[(.name "letters", letters)]⟩ tinted.sourceId = some letters := rfl
  have hfit : tinted.FitsIn letters := by decide
  obtain ⟨text, _, htext, _⟩ := exists_render_of_fitsIn (by decide) hsource hfit
  obtain ⟨c, rows, _, hrows, _, hreads, hown⟩ := colors_of_render htext rfl hfree hrange
  exact ⟨rfl, hfree, hrange, text, c, rows, htext, hrows, hreads, fun row hrow => (hown row hrow).1⟩

end Report

end Callout

import Callout.Proofs.DrawnLook
import Callout.Proofs.Framing

namespace Callout

/-- What is left of a text when every selection, from an escape character and a bracket up to the next
m, is dropped. `within` tells whether a selection has begun. -/
def dropSelections (within : Bool) : List Char → List Char
  | [] => []
  | c :: rest =>
    if within then dropSelections (c != 'm') rest
    else if c = '\x1b' ∧ rest.head? = some '[' ∧ 'm' ∈ rest then dropSelections true rest
    else c :: dropSelections false rest

section Selections

theorem dropSelections_within {parameters : List Char} (h : 'm' ∉ parameters) (rest : List Char) :
    dropSelections true (parameters ++ 'm' :: rest) = dropSelections false rest := by
  induction parameters with
  | nil => rfl
  | cons c parameters ih =>
    rw [List.mem_cons, not_or] at h
    obtain ⟨hc, hparameters⟩ := h
    have hgoes : (c != 'm') = true := bne_iff_ne.mpr fun heq => hc heq.symm
    rw [List.cons_append, dropSelections, if_pos rfl, hgoes, ih hparameters]

theorem dropSelections_text {text : List Char} (h : '\x1b' ∉ text) (rest : List Char) :
    dropSelections false (text ++ rest) = text ++ dropSelections false rest := by
  induction text with
  | nil => rfl
  | cons c text ih =>
    rw [List.mem_cons, not_or] at h
    obtain ⟨hc, htext⟩ := h
    have hplain : ¬(c = '\x1b' ∧ (text ++ rest).head? = some '[' ∧ 'm' ∈ text ++ rest) :=
      fun hboth => hc hboth.1.symm
    rw [List.cons_append, dropSelections, if_neg (by simp), if_neg hplain, ih htext, List.cons_append]

/-- Whether nothing is left of a text when selections are dropped, wherever it stands. -/
def Invisible (text : List Char) : Prop :=
  ∀ rest, dropSelections false (text ++ rest) = dropSelections false rest

theorem invisible_nil : Invisible [] :=
  fun _ => rfl

theorem Invisible.append {front back : List Char} (hfront : Invisible front) (hback : Invisible back) :
    Invisible (front ++ back) := by
  intro rest
  rw [List.append_assoc, hfront, hback]

theorem invisible_selectRendition {parameters : String} (h : 'm' ∉ parameters.toList) :
    Invisible (selectRendition parameters) := by
  intro rest
  have hbracket : 'm' ∉ '[' :: parameters.toList := by
    rw [List.mem_cons, not_or]
    exact ⟨by decide, h⟩
  have hwithin := dropSelections_within hbracket rest
  have hshape : selectRendition parameters ++ rest =
      '\x1b' :: (('[' :: parameters.toList) ++ 'm' :: rest) := by
    simp [selectRendition]
  rw [hshape, dropSelections, if_neg (by simp), if_pos ⟨rfl, rfl, by simp⟩, hwithin]

theorem m_not_in_nat (n : Nat) : 'm' ∉ (toString n).toList := by
  intro hmem
  have hdigit := isDigit_of_mem_toString hmem
  exact absurd hdigit (by decide)

theorem toString_negSucc (n : Nat) :
    (toString (Int.negSucc n)).toList = '-' :: (toString (n + 1)).toList := by
  change ("-" ++ (toString (n + 1))).toList = _
  rw [String.toList_append]
  rfl

theorem m_not_in_int (i : Int) : 'm' ∉ (toString i).toList := by
  cases i with
  | ofNat n => exact m_not_in_nat n
  | negSucc n =>
    rw [toString_negSucc, List.mem_cons, not_or]
    exact ⟨by decide, m_not_in_nat (n + 1)⟩

theorem invisible_color (ground : Ground) (color : Color) : Invisible (color.select ground) := by
  cases color with
  | basic b =>
    cases ground with
    | foreground => exact invisible_selectRendition (m_not_in_nat _)
    | background => exact invisible_selectRendition (m_not_in_nat _)
  | rgb red green blue =>
    have hred := m_not_in_int red
    have hgreen := m_not_in_int green
    have hblue := m_not_in_int blue
    have hsemicolon : 'm' ∉ (toString ";").toList := by decide
    cases ground with
    | foreground =>
      have hhead : 'm' ∉ (toString "38;2;").toList := by decide
      apply invisible_selectRendition
      simp only [String.toList_append, List.mem_append, not_or]
      exact ⟨⟨⟨⟨⟨hhead, hred⟩, hsemicolon⟩, hgreen⟩, hsemicolon⟩, hblue⟩
    | background =>
      have hhead : 'm' ∉ (toString "48;2;").toList := by decide
      apply invisible_selectRendition
      simp only [String.toList_append, List.mem_append, not_or]
      exact ⟨⟨⟨⟨⟨hhead, hred⟩, hsemicolon⟩, hgreen⟩, hsemicolon⟩, hblue⟩

theorem invisible_flatMap {α : Type} {f : α → List Char} (h : ∀ x, Invisible (f x)) (xs : List α) :
    Invisible (xs.flatMap f) := by
  induction xs with
  | nil => exact invisible_nil
  | cons x xs ih =>
    rw [List.flatMap_cons]
    exact (h x).append ih

theorem invisible_modifiers (chosen : List Modifier) : Invisible (Modifier.select chosen) :=
  invisible_flatMap (fun _ => invisible_selectRendition (m_not_in_nat _)) _

theorem invisible_select (style : Style) : Invisible style.select := by
  unfold Style.select
  split
  next =>
    have hforeground := invisible_color .foreground style.foreground
    have hbackground := invisible_color .background style.background
    exact ((invisible_modifiers style.modifiers).append hforeground).append hbackground
  next => exact invisible_nil

theorem invisible_reset (style : Style) : Invisible style.reset := by
  unfold Style.reset
  split
  next => exact invisible_select Style.plain
  next => exact invisible_nil

/-- A text in any style is the text and selections around it. -/
theorem dropSelections_paint (style : Style) {text : List Char} (h : '\x1b' ∉ text) (rest : List Char) :
    dropSelections false (style.paint text ++ rest) = text ++ dropSelections false rest := by
  unfold Style.paint
  split
  next hempty =>
    rw [List.isEmpty_iff.mp hempty]
    rfl
  next =>
    have hselect := invisible_select style
    have hreset := invisible_reset style
    rw [List.append_assoc, List.append_assoc, hselect, dropSelections_text h, hreset]

end Selections

section Rows

variable {chars : CharSet}

theorem dropSelections_paintRun {run : List Cell} (h : '\x1b' ∉ run.map (Cell.shown chars))
    (rest : List Char) : dropSelections false (paintRun chars true run ++ rest) =
      run.map (Cell.shown chars) ++ dropSelections false rest := by
  rw [paintRun]
  cases run.head?.bind Cell.color with
  | none => exact dropSelections_text h rest
  | some color => exact dropSelections_paint _ h rest

theorem dropSelections_runs {runs : List (List Cell)}
    (h : '\x1b' ∉ runs.flatten.map (Cell.shown chars)) (rest : List Char) :
    dropSelections false (runs.flatMap (paintRun chars true) ++ rest) =
      runs.flatten.map (Cell.shown chars) ++ dropSelections false rest := by
  induction runs with
  | nil => rfl
  | cons run runs ih =>
    rw [List.flatten_cons, List.map_append, List.mem_append, not_or] at h
    obtain ⟨hrun, hruns⟩ := h
    rw [List.flatMap_cons, List.append_assoc, dropSelections_paintRun hrun, ih hruns,
      List.flatten_cons, List.map_append, List.append_assoc]

/-- However cells fall into runs, the selections around the runs are all that colors add. -/
theorem dropSelections_paintCells {cells : List Cell} (h : '\x1b' ∉ cells.map (Cell.shown chars))
    (rest : List Char) : dropSelections false (paintCells chars true cells ++ rest) =
      paintCells chars false cells ++ dropSelections false rest := by
  have hruns : (cells.splitBy fun a b => a.color == b.color).flatten = cells := List.flatten_splitBy _ _
  rw [paintCells_plain, paintCells, dropSelections_runs (by rw [hruns]; exact h), hruns]

/-- A row has no control character but those of its body. -/
theorem not_mem_cells {row : Row} {c : Char} (hc : c < ' ') (gutter : Nat)
    (h : c ∉ row.body.map (Cell.shown chars)) :
    c ∉ (row.cells gutter).map (Cell.shown chars) := by
  have hglyph := control_ne_glyph hc chars
  have hblank : c ≠ ' ' := Char.ne_of_lt hc
  have hgutter := not_mem_gutterText hc gutter
  have hcells : (row.cells gutter).map (Cell.shown chars) =
      row.gutterShown chars gutter ++ row.bodyShown chars := by
    have htext := row.text_plain chars gutter
    rw [Row.text, paintCells_plain] at htext
    exact List.append_cancel_right htext
  rw [hcells, List.mem_append, not_or]
  obtain ⟨role, body⟩ := row
  cases role with
  | header => exact ⟨by simp [Row.gutterShown], h⟩
  | bareNote index => exact ⟨by simp [Row.gutterShown], h⟩
  | border =>
    refine ⟨hgutter none, ?_⟩
    simp only [Row.bodyShown, List.mem_append, List.mem_cons, List.not_mem_nil, or_false, not_or]
    exact ⟨⟨⟨hglyph _, hglyph _, hglyph _⟩, h⟩, hglyph _⟩
  | footer =>
    refine ⟨fun hmem => hglyph _ (List.eq_of_mem_replicate hmem), ?_⟩
    simp only [Row.bodyShown, List.mem_singleton]
    exact hglyph _
  | _ =>
    simp only [Row.gutterShown, Row.bodyShown, List.mem_cons, not_or]
    refine ⟨hgutter _, hglyph _, ?_⟩
    split
    next => simp
    next =>
      rw [List.mem_cons, not_or]
      exact ⟨hblank, h⟩

theorem dropSelections_rows {rows : List Row}
    (h : ∀ row ∈ rows, '\x1b' ∉ row.body.map (Cell.shown chars)) (gutter : Nat) :
    dropSelections false (rowsText chars true gutter rows) = rowsText chars false gutter rows := by
  induction rows with
  | nil => rfl
  | cons row rows ih =>
    have hrow := not_mem_cells (show '\x1b' < ' ' by decide) gutter (h row List.mem_cons_self)
    have hrows := ih fun row hrow => h row (List.mem_cons_of_mem _ hrow)
    rw [rowsText] at hrows ⊢
    rw [rowsText, List.flatMap_cons, List.flatMap_cons, Row.text, Row.text, List.append_assoc,
      dropSelections_paintCells hrow, dropSelections_text (by decide), hrows, List.append_assoc]
    rfl

end Rows

section Report

variable {catalog : Catalog} {d : Diagnostic}

/-- A report with colors or without is made of the same rows, or refused for the same cause. -/
theorem render_withColors (catalog : Catalog) (d : Diagnostic) (colors : Bool) :
    render catalog (d.withColors colors) = Canvas.ofDiagnostic catalog d >>= fun c =>
      c.rows.map fun rows => String.ofList (rowsText d.config.charSet colors c.gutter rows) :=
  render_inLook catalog d colors d.config.charSet

/-- The texts that a diagnostic hands in. -/
def Diagnostic.texts (d : Diagnostic) : List String :=
  [d.sourceId.shown, d.message] ++ d.code.toList ++ d.labels.map Label.message ++
    d.notes.flatMap fun note => [note.category, note.message]

/-- A diagnostic without escape characters, and a source without them, if there is one. -/
structure Diagnostic.IsUnescaped (d : Diagnostic) (catalog : Catalog) : Prop where
  texts : ∀ text ∈ d.texts, '\x1b' ∉ text.toList
  source : ∀ source, catalog.find? d.sourceId = some source → '\x1b' ∉ source.text

theorem escape_not_in_header (chars : CharSet) (h : d.IsUnescaped catalog) :
    '\x1b' ∉ (Canvas.header ⟨d, none⟩).body.map (Cell.shown chars) := by
  have hmessage : '\x1b' ∉ d.message.toList := h.texts d.message (by simp [Diagnostic.texts])
  have hseverity : '\x1b' ∉ d.severity.name.toList := by
    cases d.severity <;> decide
  simp only [Canvas.header, List.map_append, map_shown_ofText, List.mem_append, not_or]
  refine ⟨⟨hseverity, ?_⟩, by decide, hmessage⟩
  cases hd : d.code with
  | none => exact List.not_mem_nil
  | some code =>
    have hcode : '\x1b' ∉ code.toList := h.texts code (by simp [Diagnostic.texts, hd])
    dsimp only
    split
    next => exact List.not_mem_nil
    next => simp [hcode]

theorem escape_not_in_note (h : d.IsUnescaped catalog) {note : Note} (hnote : note ∈ d.notes) :
    '\x1b' ∉ note.category.toList ∧ ∀ part ∈ lineParts note.message.toList, '\x1b' ∉ part := by
  have hcategory : '\x1b' ∉ note.category.toList :=
    h.texts note.category (List.mem_append_right _ (List.mem_flatMap.mpr ⟨note, hnote, by simp⟩))
  have hmessage : '\x1b' ∉ note.message.toList :=
    h.texts note.message (List.mem_append_right _ (List.mem_flatMap.mpr ⟨note, hnote, by simp⟩))
  exact ⟨hcategory, fun part hpart hmem => hmessage (mem_lineParts hpart hmem).1⟩

theorem escape_not_in_bareNotes (chars : CharSet) (h : d.IsUnescaped catalog) {row : Row}
    (hrow : row ∈ Canvas.bareNotes ⟨d, none⟩) : '\x1b' ∉ row.body.map (Cell.shown chars) := by
  obtain ⟨⟨note, i⟩, hnote, hrow⟩ := List.mem_flatMap.mp hrow
  obtain ⟨hcategory, hparts⟩ := escape_not_in_note h (List.fst_mem_of_mem_zipIdx hnote)
  exact not_mem_noteRows chars (by decide) (by decide) hcategory hparts hrow

theorem escape_not_in_message (chars : CharSet) (h : d.IsUnescaped catalog) {label : Label} {row : Row}
    (hlabel : label ∈ d.labels) (hrow : row.IsMessage label.message) :
    '\x1b' ∉ row.body.map (Cell.shown chars) := by
  have hmessage : '\x1b' ∉ label.message.toList :=
    h.texts label.message
      (List.mem_append_left _ (List.mem_append_right _ (List.mem_map_of_mem hlabel)))
  obtain ⟨lead, hlead, hbody⟩ := hrow.body_eq
  intro hmem
  rw [hbody] at hmem
  have hcells := mem_shown_of_trimBlanks chars hmem
  rw [List.map_append, List.mem_append, Cell.plain, map_shown_ofText] at hcells
  rcases hcells with hcells | hcells
  · exact not_mem_shown_of_frame chars (by decide) hlead hcells
  · exact hmessage hcells

theorem escape_not_in_source (h : d.IsUnescaped catalog) {p : Placement}
    (hcanvas : Canvas.ofDiagnostic catalog d = .ok ⟨d, some p⟩) : '\x1b' ∉ p.source.text := by
  obtain ⟨_, hsource, _⟩ := Canvas.placed hcanvas
  exact h.source p.source hsource

/-- Escape characters stand in the rows of a report only when they are handed in. -/
theorem escape_not_in_rows (chars : CharSet) (h : d.IsUnescaped catalog) {c : Canvas} {rows : List Row}
    (hcanvas : Canvas.ofDiagnostic catalog d = .ok c) (hrows : c.rows = .ok rows) {row : Row}
    (hrow : row ∈ rows) : '\x1b' ∉ row.body.map (Cell.shown chars) := by
  have hd := Canvas.diagnostic_eq hcanvas
  have hheader := escape_not_in_header chars h
  obtain ⟨diagnostic, placement⟩ := c
  cases hd
  cases placement with
  | none =>
    cases hrows
    rcases List.mem_cons.mp hrow with rfl | hrow
    · exact hheader
    · exact escape_not_in_bareNotes chars h hrow
  | some p =>
    have hrender := render_of_rows_ok hcanvas hrows
    obtain ⟨locus, inner, hinner⟩ := exists_encloses hrender hcanvas
    cases hrows.symm.trans hinner.rows_eq
    have hid : '\x1b' ∉ diagnostic.sourceId.shown.toList :=
      h.texts diagnostic.sourceId.shown (by simp [Diagnostic.texts])
    have hlocus := not_mem_locus (show '\x1b' < ' ' by decide) locus hid
    have hcode : ∀ line ∈ p.relevantLines, ∀ fragments, p.fragments line = .ok fragments →
        '\x1b' ∉ shownPieces (fragments.map Fragment.text) := by
      intro line hline fragments hcut hmem
      obtain ⟨head, tail, htext, _⟩ := Placement.fragments_cover hline hcut
      have hsource := escape_not_in_source h hcanvas
      rw [htext] at hsource
      exact hsource (List.mem_append_left _ (List.mem_append_right _ (mem_of_mem_shownPieces hmem)))
    rcases List.mem_cons.mp hrow with rfl | hrow
    · exact hheader
    rcases List.mem_cons.mp hrow with rfl | hrow
    · rw [borderRow, Cell.plain, map_shown_ofText]
      exact hlocus
    rcases List.mem_append.mp hrow with hrow | hrow
    · rcases (hinner.stands row hrow).control_free chars (show '\x1b' < ' ' by decide) hcode
          (fun note hnote => escape_not_in_note h hnote) with
        hfree | ⟨label, hlabel, hmessage⟩
      · exact hfree
      · exact escape_not_in_message chars h hlabel hmessage
    · rw [List.mem_singleton.mp hrow]
      simp [Canvas.footer]

/-- Colors only decorate a report. When no text that is handed in has an escape character, the report
with colors is the report without them once all selections are dropped, and when one of them is refused,
the other is for the same cause. -/
theorem render_without_selections (h : d.IsUnescaped catalog) :
    render catalog (d.withColors false) = (render catalog (d.withColors true)).map fun text =>
      String.ofList (dropSelections false text.toList) := by
  rw [render_withColors, render_withColors]
  cases hcanvas : Canvas.ofDiagnostic catalog d with
  | error e => rfl
  | ok c =>
    cases hrows : c.rows with
    | error e => simp only [bind, Except.bind, hrows, Except.map]
    | ok rows =>
      have hdropped := dropSelections_rows
        (fun row hrow => escape_not_in_rows d.config.charSet h hcanvas hrows hrow) c.gutter
      simp only [bind, Except.bind, hrows, Except.map, String.toList_ofList, hdropped]

/-- Labels and a note in colors that were not checked, and one in a basic color. -/
def painted : Diagnostic where
  sourceId := .name "letters"
  severity := .warning
  message := "painted"
  code := some "W1"
  labels := [⟨⟨0, 4, by omega⟩, "first", .rgb (-1) 0 300⟩, ⟨⟨1, 2, by omega⟩, "", .basic .green⟩]
  notes := [⟨"", "one\ntwo", .rgb 1 2 3⟩]

theorem painted_without_selections : painted.IsUnescaped ⟨[(.name "letters", letters)]⟩ ∧
    ∃ text, render ⟨[(.name "letters", letters)]⟩ (painted.withColors true) = .ok text ∧
      render ⟨[(.name "letters", letters)]⟩ (painted.withColors false) =
        .ok (String.ofList (dropSelections false text.toList)) := by
  have hfree : painted.IsUnescaped ⟨[(.name "letters", letters)]⟩ := by
    refine ⟨by decide, ?_⟩
    intro source hsource
    cases hsource
    decide
  have hsource : Catalog.find? ⟨[(.name "letters", letters)]⟩ (painted.withColors true).sourceId =
    some letters := rfl
  have hfit : (painted.withColors true).FitsIn letters := by decide
  obtain ⟨text, _, htext, _⟩ := exists_render_of_fitsIn (by decide) hsource hfit
  refine ⟨hfree, text, htext, ?_⟩
  rw [render_without_selections hfree, htext]
  rfl

end Report

end Callout

import Callout.Proofs.Framing

namespace Callout

/-- Whether a line begins with a gutter of some width and a bar. -/
def InFrame (chars : CharSet) (width : Nat) (line : List Char) : Prop :=
  ∃ gutter bar rest, line = gutter ++ bar :: rest ∧ gutter.length = width ∧
    (gutter = List.replicate width ' ' ∨
      ∃ n blanks, gutter = List.replicate blanks ' ' ++ (toString (n : Nat)).toList ++ [' ']) ∧
    (bar = chars.glyph .vbar ∨ bar = chars.glyph .vbarGap)

/-- A message without the blanks at its end. -/
def dropBlanks (message : String) : List Char :=
  Text.dropEndWhile (· == ' ') message.toList

theorem lineParts_append_line (line rest : List Char) :
    lineParts (line ++ '\n' :: rest) = lineParts line ++ lineParts rest :=
  List.splitOn_append_cons_self line rest

theorem lineParts_single {line : List Char} (h : '\n' ∉ line) : lineParts line = [line] :=
  List.splitOn_eq_singleton h

theorem lineParts_ended (lines : List (List Char)) (rest : List Char) :
    lineParts (lines.flatMap (· ++ ['\n']) ++ rest) = lines.flatMap lineParts ++ lineParts rest := by
  induction lines with
  | nil => rfl
  | cons line lines ih =>
    rw [List.flatMap_cons, List.flatMap_cons, List.append_assoc, List.append_assoc, List.append_assoc,
      List.singleton_append, lineParts_append_line, ih]

theorem lineParts_append {front : List Char} (h : '\n' ∉ front) (rest : List Char) :
    ∃ first, lineParts (front ++ rest) = (front ++ first) :: (lineParts rest).tail := by
  induction front with
  | nil =>
    have hne : lineParts rest ≠ [] := List.splitOn_ne_nil '\n' rest
    obtain ⟨first, tail, hparts⟩ := List.exists_cons_of_ne_nil hne
    exact ⟨first, by rw [List.nil_append, List.nil_append, hparts, List.tail_cons]⟩
  | cons c front ih =>
    rw [List.mem_cons, not_or] at h
    obtain ⟨hc, hfront⟩ := h
    obtain ⟨first, hparts⟩ := ih hfront
    have hne : ¬(c == '\n') = true := by
      rw [beq_iff_eq]
      exact fun heq => hc heq.symm
    refine ⟨first, ?_⟩
    rw [lineParts] at hparts
    rw [List.cons_append, lineParts, List.splitOn_cons_eq_if_modifyHead, if_neg hne, hparts]
    rfl

theorem dropBlanks_plain (message : String) :
    trimBlanks (Cell.plain message) = Cell.ofText none (dropBlanks message) := by
  have hblank : (fun cell : Cell => cell == .blank) ∘ (fun c => ⟨.text c, none⟩) =
      fun c => c == ' ' := by
    funext c
    rw [Bool.eq_iff_iff]
    simp [Cell.blank]
  rw [trimBlanks, Cell.plain, Cell.ofText, Text.dropEndWhile, ← List.map_reverse, List.dropWhile_map,
    hblank, ← List.map_reverse]
  rfl

/-- Trimming a row takes blanks from the end of its message, and goes on only when the message was
blank. -/
theorem trimBlanks_message (lead : List Cell) (message : String) :
    trimBlanks (lead ++ Cell.plain message) =
      if dropBlanks message = [] then trimBlanks lead
      else lead ++ Cell.ofText none (dropBlanks message) := by
  have happend := dropEndWhile_append (· == Cell.blank) lead (Cell.plain message)
  have hplain := dropBlanks_plain message
  rw [trimBlanks] at hplain ⊢
  rw [happend, hplain]
  simp only [Cell.ofText, List.map_eq_nil_iff]
  rfl

section Rows

variable {chars : CharSet} {width : Nat} {row : Row}

/-- The text of a row inside the frame, without the line feed that ends it. -/
def Row.line (chars : CharSet) (width : Nat) (row : Row) : List Char :=
  gutterText width row.role.number? ++ chars.glyph row.role.bar ::
    if row.body.isEmpty then [] else ' ' :: row.body.map (Cell.shown chars)

theorem Row.text_eq_line (h : row.role.isInside = true) :
    row.text chars false width = row.line chars width ++ ['\n'] := by
  rw [Row.text_inside chars width h, Row.line, List.append_assoc, List.cons_append]

theorem bar_cases (role : Role) :
    chars.glyph role.bar = chars.glyph .vbar ∨ chars.glyph role.bar = chars.glyph .vbarGap := by
  cases role with
  | gap => exact .inr rfl
  | _ => exact .inl rfl

theorem Row.IsFramed.inFrame {gutter rest : List Char} {bar : Char} (hinside : row.role.isInside = true)
    (h : row.IsFramed chars width gutter bar rest) : InFrame chars width (row.line chars width) := by
  have hline : row.line chars width = gutter ++ bar :: rest := by
    have htext := h.text_eq
    rw [Row.text_eq_line hinside] at htext
    exact List.append_cancel_right htext
  refine ⟨gutter, bar, rest, hline, h.width_eq, ?_, ?_⟩
  · rcases h.gutter_eq with ⟨_, hblank⟩ | ⟨n, blanks, _, hnumber⟩
    · exact .inl hblank
    · exact .inr ⟨n, blanks, hnumber⟩
  · rw [h.bar_eq, ← glyph_bar]
    exact bar_cases row.role

theorem inFrame_of_bar (role : Role) (rest : List Char) :
    InFrame chars width (gutterText width none ++ chars.glyph role.bar :: rest) :=
  ⟨_, _, rest, rfl, List.length_replicate, .inl rfl, bar_cases role⟩

theorem newline_not_in_frame (number : Option Nat) (role : Role) {rest : List Char} (h : '\n' ∉ rest) :
    '\n' ∉ gutterText width number ++ chars.glyph role.bar :: rest := by
  have hgutter := not_mem_gutterText (show '\n' < ' ' by decide) width number
  rw [List.mem_append, List.mem_cons, not_or, not_or]
  exact ⟨hgutter, control_ne_glyph (by decide) chars role.bar, h⟩

theorem newline_not_in_line (h : '\n' ∉ row.body.map (Cell.shown chars)) :
    '\n' ∉ row.line chars width := by
  apply newline_not_in_frame
  split
  next => simp
  next =>
    rw [List.mem_cons, not_or]
    exact ⟨by decide, h⟩

/-- The first line of a row with a message is inside the frame. Its other lines are the parts of the
message behind its line feeds. -/
theorem Row.IsMessage.lines {message : String} (h : row.IsMessage message) :
    ∃ first, InFrame chars width first ∧
      lineParts (row.line chars width) = first :: (lineParts (dropBlanks message)).tail := by
  obtain ⟨lead, hlead, hbody⟩ := h.body_eq
  have hframe := not_mem_shown_of_frame chars (show '\n' < ' ' by decide) hlead
  rw [trimBlanks_message] at hbody
  by_cases hblank : dropBlanks message = []
  · rw [if_pos hblank] at hbody
    have htrimmed : '\n' ∉ row.body.map (Cell.shown chars) := by
      rw [hbody]
      exact not_mem_shown_of_frame chars (by decide) fun cell hcell => hlead cell (mem_trimBlanks hcell)
    refine ⟨row.line chars width, ?_, ?_⟩
    · rw [Row.line, h.number_eq]
      exact inFrame_of_bar _ _
    · rw [lineParts_single (newline_not_in_line htrimmed), hblank]
      rfl
  · rw [if_neg hblank] at hbody
    have hline : row.line chars width = (gutterText width none ++ chars.glyph row.role.bar ::
        ' ' :: lead.map (Cell.shown chars)) ++ dropBlanks message := by
      have hne : row.body.isEmpty = false := by
        rw [hbody, List.isEmpty_eq_false_iff]
        simp [Cell.ofText, hblank]
      rw [Row.line, h.number_eq, hne, if_neg (by simp), hbody, List.map_append, map_shown_ofText]
      simp only [List.append_assoc, List.cons_append]
    have hfront : '\n' ∉ gutterText width none ++ chars.glyph row.role.bar ::
        ' ' :: lead.map (Cell.shown chars) := by
      apply newline_not_in_frame
      rw [List.mem_cons, not_or]
      exact ⟨by decide, hframe⟩
    obtain ⟨first, hparts⟩ := lineParts_append hfront (dropBlanks message)
    refine ⟨(gutterText width none ++ chars.glyph row.role.bar ::
      ' ' :: lead.map (Cell.shown chars)) ++ first, ?_, by rw [hline, hparts]⟩
    rw [List.append_assoc]
    exact inFrame_of_bar _ _

theorem lineParts_rows {rows : List Row} (h : ∀ row ∈ rows, row.role.isInside = true)
    (rest : List Char) : lineParts (rows.flatMap (Row.text chars false width) ++ rest) =
      rows.flatMap (fun row => lineParts (row.line chars width)) ++ lineParts rest := by
  have hrows : rows.flatMap (Row.text chars false width) =
      (rows.map (Row.line chars width)).flatMap (· ++ ['\n']) := by
    rw [List.flatMap_map]
    exact List.flatMap_congr fun row hrow => Row.text_eq_line (h row hrow)
  rw [hrows, lineParts_ended, List.flatMap_map]

end Rows

variable {catalog : Catalog} {d : Diagnostic} {p : Placement} {text : String}

theorem Placement.newline_not_in_code {line : Nat} {fragments : List Fragment}
    (hline : line ∈ p.relevantLines) (h : p.fragments line = .ok fragments) :
    '\n' ∉ shownPieces (fragments.map Fragment.text) := by
  obtain ⟨_, _, _, hseparator⟩ := fragments_cover hline h
  intro hmem
  have hnot := separator_not_shown hseparator hmem
  exact absurd hnot (by decide)

theorem newline_not_in_border (chars : CharSet) (width : Nat) {id : SourceId} (locus : Locus)
    (h : '\n' ∉ id.shown.toList) : '\n' ∉ borderLine chars width id locus := by
  have hglyph := control_ne_glyph (show '\n' < ' ' by decide) chars
  have hlocus := not_mem_locus (show '\n' < ' ' by decide) locus h
  simp only [borderLine, List.mem_append, List.mem_cons, List.mem_replicate, List.not_mem_nil, or_false,
    not_or]
  exact ⟨fun hblank => absurd hblank.2 (by decide), hglyph _, hglyph _, hglyph _, hlocus, hglyph _⟩

theorem newline_not_in_footer (chars : CharSet) (width : Nat) : '\n' ∉ footerLine chars width := by
  have hglyph := control_ne_glyph (show '\n' < ' ' by decide) chars
  simp only [footerLine, List.mem_append, List.mem_replicate, List.mem_singleton, not_or]
  exact ⟨fun hbar => hglyph _ hbar.2, hglyph _⟩

/-- A row inside the frame is one line, or it has the message of a label and lines below the first. -/
theorem Placement.Stands.lines {chars : CharSet} {width : Nat} {row : Row} (h : p.Stands d row)
    (hnotes : ∀ note ∈ d.notes, '\n' ∉ note.category.toList)
    (hframe : InFrame chars width (row.line chars width)) : ∃ first, InFrame chars width first ∧
      (lineParts (row.line chars width) = [first] ∨ ∃ label ∈ d.labels,
        lineParts (row.line chars width) = first :: (lineParts (dropBlanks label.message)).tail) := by
  have hnote : ∀ note ∈ d.notes, '\n' ∉ note.category.toList ∧
      ∀ part ∈ lineParts note.message.toList, '\n' ∉ part := by
    intro note hmem
    refine ⟨hnotes note hmem, fun part hpart hc => ?_⟩
    exact (mem_lineParts hpart hc).2 rfl
  rcases h.control_free chars (show '\n' < ' ' by decide)
    (fun line hline fragments hcut => Placement.newline_not_in_code hline hcut) hnote with
    hfree | ⟨label, hlabel, hmessage⟩
  · exact ⟨_, hframe, .inl (lineParts_single (newline_not_in_line hfree))⟩
  · obtain ⟨first, hfirst, hparts⟩ : ∃ first, InFrame chars width first ∧
      lineParts (row.line chars width) = first :: _ := hmessage.lines
    exact ⟨first, hfirst, .inr ⟨label, hlabel, hparts⟩⟩

/-- The lines of a report. Those between its border and its footer are all inside the frame exactly when
every part of a message of a label behind a line feed looks like a line inside the frame by itself. Line
feeds in notes never break the frame. -/
theorem lines_of_render (h : render catalog d = .ok text) (hlabels : d.labels ≠ [])
    (hcolors : d.config.colors = false) (hid : '\n' ∉ d.sourceId.shown.toList)
    (hnotes : ∀ note ∈ d.notes, '\n' ∉ note.category.toList) :
    let chars := d.config.charSet
    ∃ p locus lines, Canvas.ofDiagnostic catalog d = .ok ⟨d, some p⟩ ∧ p.locus = .ok locus ∧
      lineParts text.toList = lineParts ((Canvas.header ⟨d, none⟩).body.map (Cell.shown chars)) ++
        borderLine chars p.gutterWidth d.sourceId locus ::
          (lines ++ [footerLine chars p.gutterWidth, []]) ∧
      ((∀ line ∈ lines, InFrame chars p.gutterWidth line) ↔ ∀ label ∈ d.labels,
        ∀ part ∈ (lineParts (dropBlanks label.message)).tail, InFrame chars p.gutterWidth part) ∧
      ((∀ label ∈ d.labels, '\n' ∉ label.message.toList) →
        ∀ line ∈ lines, InFrame chars p.gutterWidth line) := by
  intro chars
  obtain ⟨p, hcanvas⟩ := exists_canvas_of_render h hlabels
  obtain ⟨locus, inner, hinner⟩ := exists_encloses h hcanvas
  have hinside : ∀ row ∈ inner, row.role.isInside = true :=
    fun row hrow => (hinner.stands row hrow).inside
  have hborder := lineParts_single (newline_not_in_border chars p.gutterWidth locus hid)
  have hfooter := lineParts_single (newline_not_in_footer chars p.gutterWidth)
  have hrow : ∀ row ∈ inner, ∃ first, InFrame chars p.gutterWidth first ∧
      (lineParts (row.line chars p.gutterWidth) = [first] ∨ ∃ label ∈ d.labels,
        lineParts (row.line chars p.gutterWidth) =
          first :: (lineParts (dropBlanks label.message)).tail) := by
    intro row hrow
    obtain ⟨gutter, bar, rest, hframed⟩ := hinner.isFramed chars hrow
    exact (hinner.stands row hrow).lines hnotes (hframed.inFrame (hinside row hrow))
  have hiff : (∀ line ∈ inner.flatMap fun row => lineParts (row.line chars p.gutterWidth),
      InFrame chars p.gutterWidth line) ↔ ∀ label ∈ d.labels,
        ∀ part ∈ (lineParts (dropBlanks label.message)).tail, InFrame chars p.gutterWidth part := by
    constructor
    · intro hall label hlabel part hpart
      obtain ⟨row, hmem, hmessage⟩ := hinner.messages label hlabel
      obtain ⟨first, _, hparts⟩ : ∃ first, InFrame chars p.gutterWidth first ∧
        lineParts (row.line chars p.gutterWidth) = first :: _ := hmessage.lines
      apply hall
      rw [List.mem_flatMap]
      exact ⟨row, hmem, by rw [hparts]; exact List.mem_cons_of_mem _ hpart⟩
    · intro hall line hline
      obtain ⟨row, hmem, hline⟩ := List.mem_flatMap.mp hline
      obtain ⟨first, hfirst, hparts | ⟨label, hlabel, hparts⟩⟩ := hrow row hmem
      · rw [hparts, List.mem_singleton] at hline
        rw [hline]
        exact hfirst
      · rw [hparts] at hline
        rcases List.mem_cons.mp hline with rfl | hline
        · exact hfirst
        · exact hall label hlabel line hline
  refine ⟨p, locus, inner.flatMap fun row => lineParts (row.line chars p.gutterWidth), hcanvas,
    hinner.locus_eq, ?_, hiff, ?_⟩
  · rw [hinner.text_eq h hcanvas hcolors, String.toList_ofList]
    simp only [List.append_assoc, List.cons_append, List.nil_append]
    rw [lineParts_append_line, lineParts_append_line, lineParts_rows hinside, lineParts_append_line,
      hborder, hfooter]
    rfl
  · intro hfree
    apply hiff.mpr
    intro label hlabel part hpart
    have hmessage : '\n' ∉ dropBlanks label.message := by
      intro hmem
      exact hfree label hlabel ((List.rdropWhile_prefix _ label.message.toList).subset hmem)
    rw [lineParts_single hmessage] at hpart
    cases hpart

/-- Labels with messages of one line, and a note of two lines. -/
def notedCrossing : Diagnostic :=
  { crossing.withColors false with notes := [⟨"note", "first\nsecond", .default⟩] }

theorem notedCrossing_lines : ∃ text p locus lines,
    render ⟨[(.name "letters", letters)]⟩ notedCrossing = .ok text ∧
      Canvas.ofDiagnostic ⟨[(.name "letters", letters)]⟩ notedCrossing = .ok ⟨notedCrossing, some p⟩ ∧
      lineParts text.toList = lineParts ((Canvas.header ⟨notedCrossing, none⟩).body.map
        (Cell.shown .rounded)) ++ borderLine .rounded p.gutterWidth (.name "letters") locus ::
          (lines ++ [footerLine .rounded p.gutterWidth, []]) ∧
      ∀ line ∈ lines, InFrame .rounded p.gutterWidth line := by
  have hsource : Catalog.find? ⟨[(.name "letters", letters)]⟩ notedCrossing.sourceId =
    some letters := rfl
  have hfit : notedCrossing.FitsIn letters := by decide
  obtain ⟨text, _, htext, _⟩ := exists_render_of_fitsIn (by decide) hsource hfit
  obtain ⟨p, locus, lines, hcanvas, _, hlines, _, hframe⟩ :=
    lines_of_render htext (by decide) rfl (by decide) (by decide)
  exact ⟨text, p, locus, lines, htext, hcanvas, hlines, hframe (by decide)⟩

/-- A label whose message has two lines. -/
def brokenMessage : Diagnostic where
  sourceId := .name "main.rz"
  severity := .error
  message := "oops"
  labels := [⟨⟨0, 1, by omega⟩, "m\nn", .default⟩]
  config := { colors := false }

/-- The second line of the message stands at the edge of the report. -/
theorem brokenMessage_lines :
    (render ⟨[(.name "main.rz", Source.ofText ['a', 'b'])]⟩ brokenMessage).map
        (fun text => (lineParts text.toList).map String.ofList) =
      .ok ["error: oops", "   ╭─[main.rz:1:0]", " 1 │ ab", "   │ ┬", "   │ ╰── m", "n", "   │",
        "───╯", ""] ∧
    (Canvas.ofDiagnostic ⟨[(.name "main.rz", Source.ofText ['a', 'b'])]⟩ brokenMessage).map
      Canvas.gutter = .ok 3 ∧ ¬InFrame .rounded 3 ['n'] := by
  refine ⟨by decide +kernel, by decide +kernel, ?_⟩
  intro hframe
  obtain ⟨gutter, bar, rest, hline, hwidth, _⟩ := hframe
  have hlength := congrArg List.length hline
  simp only [List.length_append, List.length_cons, List.length_nil] at hlength
  omega

end Callout

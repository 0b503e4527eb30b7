import Callout.Proofs.DrawnLook
import Callout.Proofs.PhysicalLines

namespace Callout

/-- The column in which the parts of a message start: behind the category, a colon and a blank. -/
def Note.textColumn (margin lead : List Char) (note : Note) : Nat :=
  margin.length + lead.length + note.category.toList.length + 2

/-- Whether lines show a note. The first one has its category behind the margin and the lead, the others
have blanks there; from the column of the text on they have one part of the message each. -/
structure Note.IsLaidOut (margin lead : List Char) (note : Note) (lines : List (List Char)) : Prop where
  fronts_eq : lines.map (List.take (note.textColumn margin lead)) =
    (margin ++ lead ++ note.category.toList ++ [':', ' ']) :: List.replicate (lines.length - 1)
      (margin ++ List.replicate (lead.length + note.category.toList.length + 2) ' ')
  parts_eq : lines.map (List.drop (note.textColumn margin lead)) = lineParts note.message.toList
  message_eq : ['\n'].intercalate (lines.map (List.drop (note.textColumn margin lead))) =
    note.message.toList

/-- The lines of a note behind a margin. -/
def Note.lines (margin lead : List Char) (note : Note) : List (List Char) :=
  let category := note.category.toList
  match lineParts note.message.toList with
  | [] => []
  | first :: rest =>
    (margin ++ lead ++ category ++ [':', ' '] ++ first) ::
      rest.map fun part => margin ++ List.replicate (lead.length + category.length + 2) ' ' ++ part

theorem lineParts_eq_cons (text : List Char) : ∃ first rest, lineParts text = first :: rest :=
  List.exists_cons_of_ne_nil (List.splitOn_ne_nil '\n' text)

section Lines

variable {chars : CharSet} {width : Nat} {margin lead : List Char} {note : Note}

theorem Note.isLaidOut_lines : note.IsLaidOut margin lead (note.lines margin lead) := by
  obtain ⟨first, rest, hparts⟩ := lineParts_eq_cons note.message.toList
  have hlines : note.lines margin lead =
      (margin ++ lead ++ note.category.toList ++ [':', ' '] ++ first) :: rest.map fun part =>
        margin ++ List.replicate (lead.length + note.category.toList.length + 2) ' ' ++ part := by
    rw [Note.lines, hparts]
  have hfirst : (margin ++ lead ++ note.category.toList ++ [':', ' ']).length =
      note.textColumn margin lead := by
    simp only [textColumn, List.length_append, List.length_cons, List.length_nil]
  have hrest : (margin ++ List.replicate (lead.length + note.category.toList.length + 2) ' ').length =
      note.textColumn margin lead := by
    simp only [textColumn, List.length_append, List.length_replicate]
    omega
  have hpieces : (note.lines margin lead).map (List.drop (note.textColumn margin lead)) =
      lineParts note.message.toList := by
    have hdrop : (List.drop (note.textColumn margin lead)) ∘ (fun part =>
        margin ++ List.replicate (lead.length + note.category.toList.length + 2) ' ' ++ part) = id :=
      funext fun part => List.drop_left' hrest
    rw [hlines, List.map_cons, List.map_map, List.drop_left' hfirst, hdrop, List.map_id, hparts]
  refine ⟨?_, hpieces, ?_⟩
  · have htake : (List.take (note.textColumn margin lead)) ∘ (fun part =>
        margin ++ List.replicate (lead.length + note.category.toList.length + 2) ' ' ++ part) =
        fun _ => margin ++ List.replicate (lead.length + note.category.toList.length + 2) ' ' :=
      funext fun part => List.take_left' hrest
    rw [hlines, List.map_cons, List.map_map, List.take_left' hfirst, htake, List.map_const', List.length_cons,
      List.length_map, Nat.add_sub_cancel]
  · rw [hpieces]
    exact List.intercalate_splitOn '\n'

theorem Note.newline_not_in_lines {line : List Char} (hmargin : '\n' ∉ margin) (hlead : '\n' ∉ lead)
    (hcategory : '\n' ∉ note.category.toList) (h : line ∈ note.lines margin lead) : '\n' ∉ line := by
  have hpart : ∀ part ∈ lineParts note.message.toList, '\n' ∉ part :=
    fun part hpart hc => (mem_lineParts hpart hc).2 rfl
  obtain ⟨first, rest, hparts⟩ := lineParts_eq_cons note.message.toList
  rw [hparts] at hpart
  rw [Note.lines, hparts] at h
  rcases List.mem_cons.mp h with rfl | h
  · have hfirst := hpart first List.mem_cons_self
    simp [hmargin, hlead, hcategory, hfirst]
  · obtain ⟨part, hmem, rfl⟩ := List.mem_map.mp h
    have hrest := hpart part (List.mem_cons_of_mem _ hmem)
    simp [hmargin, hrest]

theorem lineParts_lines {lines : List (List Char)} (h : ∀ line ∈ lines, '\n' ∉ line) (rest : List Char) :
    lineParts (lines.flatMap (· ++ ['\n']) ++ rest) = lines ++ lineParts rest := by
  have hlines : lines.flatMap lineParts = lines.flatMap ([·]) :=
    List.flatMap_congr fun line hline => lineParts_single (h line hline)
  rw [lineParts_ended, hlines, List.flatMap_singleton']

/-- Rows of a note as text, for a role whose rows have the margin before their bodies. -/
theorem noteRows_text {role : Role}
    (hmargin : ∀ body ≠ [], Row.text chars false width ⟨role, body⟩ =
      margin ++ body.map (Cell.shown chars) ++ ['\n']) :
    (noteRows role lead note).flatMap (Row.text chars false width) =
      (note.lines margin lead).flatMap (· ++ ['\n']) := by
  obtain ⟨first, rest, hparts⟩ := lineParts_eq_cons note.message.toList
  have hfirst := hmargin (Cell.ofText none lead ++ Cell.ofText (some note.color) note.category.toList ++
    Cell.ofText none ([':', ' '] ++ first)) (by simp [Cell.ofText])
  have hrest : ∀ part, Row.text chars false width ⟨role, Cell.ofText none
      (List.replicate (lead.length + note.category.toList.length + 2) ' ' ++ part)⟩ =
      margin ++ List.replicate (lead.length + note.category.toList.length + 2) ' ' ++ part ++ ['\n'] := by
    intro part
    rw [hmargin _ (by simp [Cell.ofText]), map_shown_ofText]
    simp only [List.append_assoc]
  rw [noteRows, Note.lines, hparts]
  dsimp only
  rw [List.flatMap_cons, List.flatMap_cons, hfirst]
  simp only [List.flatMap_map, hrest, List.map_append, map_shown_ofText, List.append_assoc]

/-- The notes of a report as text. The role of a row tells which note it is of, and its text does not. -/
theorem notes_text {role : Nat → Role}
    (hmargin : ∀ i, ∀ body ≠ [], Row.text chars false width ⟨role i, body⟩ =
      margin ++ body.map (Cell.shown chars) ++ ['\n']) (notes : List Note) :
    (notes.zipIdx.flatMap fun (note, i) => noteRows (role i) lead note).flatMap
        (Row.text chars false width) =
      (notes.map (Note.lines margin lead)).flatten.flatMap (· ++ ['\n']) := by
  have hnote : ∀ x : Note × Nat, (noteRows (role x.2) lead x.1).flatMap (Row.text chars false width) =
      (x.1.lines margin lead).flatMap (· ++ ['\n']) := fun x => noteRows_text (hmargin x.2)
  rw [List.flatMap_assoc, ← List.flatMap_def, List.flatMap_assoc]
  simp only [hnote]
  conv_rhs => rw [← List.zipIdx_map_fst 0 notes, List.flatMap_map]

end Lines

variable {catalog : Catalog} {d : Diagnostic} {text : String}

/-- The rows of a report with notes are those of the report without them, and the rows of the notes. -/
theorem rows_around_notes {c : Canvas} {rows : List Row} (h : c.rows = .ok rows) : ∃ front last,
    (⟨{ c.diagnostic with notes := [] }, c.placement⟩ : Canvas).rows =
      .ok (front ++ last :: (if c.placement.isNone then [] else [Canvas.footer])) ∧
    rows = front ++ last ::
      (if c.placement.isNone then c.bareNotes else c.notes ++ [Canvas.footer]) := by
  obtain ⟨d, placement⟩ := c
  cases placement with
  | none =>
    cases h
    exact ⟨[], Canvas.header ⟨d, none⟩, rfl, rfl⟩
  | some p =>
    obtain ⟨border, hborder, h⟩ := bind_eq_ok_iff.mp h
    obtain ⟨content, hcontent, h⟩ := bind_eq_ok_iff.mp h
    cases h
    refine ⟨[Canvas.header ⟨d, some p⟩, border] ++ content, Canvas.emptyRow, ?_, by simp⟩
    have hborder' : (⟨{ d with notes := [] }, some p⟩ : Canvas).border = .ok border := hborder
    have hcontent' : ((⟨{ d with notes := [] }, some p⟩ : Canvas).content []).rows = .ok content := hcontent
    rw [Canvas.rows]
    dsimp only
    rw [hborder', hcontent']
    simp [bind, Except.bind, pure, Except.pure, Canvas.header, Canvas.notes]

/-- Rows end in line feeds, so what is behind some rows makes lines of its own. -/
theorem exists_lineParts_above (chars : CharSet) (width : Nat) (front : List Row) (last : Row) :
    ∃ above, ∀ rest : List Row, lineParts ((front ++ last :: rest).flatMap (Row.text chars false width)) =
      above ++ lineParts (rest.flatMap (Row.text chars false width)) := by
  refine ⟨lineParts (front.flatMap (Row.text chars false width) ++
    paintCells chars false (last.cells width)), fun rest => ?_⟩
  have hrow : last.text chars false width = paintCells chars false (last.cells width) ++ ['\n'] := rfl
  rw [List.flatMap_append, List.flatMap_cons, hrow, ← lineParts_append_line]
  simp only [List.append_assoc, List.singleton_append]

/-- The lines of a report with notes, and those of the report without them, are the same above the notes. -/
theorem texts_of_render (h : render catalog d = .ok text) (hcolors : d.config.colors = false) :
    ∃ placement plain above, Canvas.ofDiagnostic catalog d = .ok ⟨d, placement⟩ ∧
      render catalog { d with notes := [] } = .ok plain ∧
      let shown := Row.text d.config.charSet false (⟨d, placement⟩ : Canvas).gutter
      lineParts plain.toList =
        above ++ lineParts ((if placement.isNone then [] else [Canvas.footer]).flatMap shown) ∧
      lineParts text.toList = above ++ lineParts ((if placement.isNone then Canvas.bareNotes ⟨d, none⟩
        else Canvas.notes ⟨d, none⟩ ++ [Canvas.footer]).flatMap shown) := by
  obtain ⟨⟨d', placement⟩, hcanvas, hrest⟩ := bind_eq_ok_iff.mp h
  obtain ⟨rows, hrows, hrest⟩ := bind_eq_ok_iff.mp hrest
  cases hrest
  have hd : d' = d := Canvas.diagnostic_eq hcanvas
  rw [hd] at hcanvas hrows
  have hplaced : Canvas.ofDiagnostic catalog { d with notes := [] } =
      (Canvas.ofDiagnostic catalog d).map fun c => ⟨{ d with notes := [] }, c.placement⟩ :=
    Canvas.ofDiagnostic_congr catalog rfl rfl
  rw [hcanvas] at hplaced
  obtain ⟨front, last, hplain, hnoted⟩ := rows_around_notes hrows
  obtain ⟨above, habove⟩ :=
    exists_lineParts_above d.config.charSet (⟨d, placement⟩ : Canvas).gutter front last
  refine ⟨placement, _, above, hcanvas, render_of_rows_ok hplaced hplain, ?_, ?_⟩
  · rw [String.toList_ofList, Canvas.text, rowsText]
    dsimp only
    rw [hcolors]
    exact habove _
  · rw [String.toList_ofList, hd, Canvas.text, rowsText, hnoted]
    dsimp only
    rw [hcolors]
    exact habove _

theorem bareNote_text (chars : CharSet) (width i : Nat) (body : List Cell) :
    Row.text chars false width ⟨.bareNote i, body⟩ = [] ++ body.map (Cell.shown chars) ++ ['\n'] :=
  Row.text_plain chars width ⟨.bareNote i, body⟩

theorem note_text (chars : CharSet) (width i : Nat) {body : List Cell} (h : body ≠ []) :
    Row.text chars false width ⟨.note i, body⟩ =
      List.replicate width ' ' ++ [chars.glyph .vbar, ' '] ++ body.map (Cell.shown chars) ++ ['\n'] := by
  have hbody : body.isEmpty = false := List.isEmpty_eq_false_iff.mpr h
  rw [Row.text_inside chars width rfl, hbody, if_neg Bool.false_ne_true]
  simp only [Role.number?, gutterText, Role.bar, List.append_assoc, List.cons_append, List.nil_append]

/-- The lines of notes stand before those of the rows behind them. -/
theorem lineParts_before {chars : CharSet} {width : Nat} {margin lead : List Char} {notes : List Note}
    (hmargin : '\n' ∉ margin) (hlead : '\n' ∉ lead)
    (hcategories : ∀ note ∈ notes, '\n' ∉ note.category.toList) {noteRows : List Row}
    (hnotes : noteRows.flatMap (Row.text chars false width) =
      (notes.map (Note.lines margin lead)).flatten.flatMap (· ++ ['\n'])) (rest : List Row) :
    lineParts ((noteRows ++ rest).flatMap (Row.text chars false width)) =
      (notes.map (Note.lines margin lead)).flatten ++ lineParts (rest.flatMap (Row.text chars false width)) := by
  rw [List.flatMap_append, hnotes]
  apply lineParts_lines
  intro line hline
  obtain ⟨lines, hlines, hline⟩ := List.mem_flatten.mp hline
  obtain ⟨note, hnote, rfl⟩ := List.mem_map.mp hlines
  exact Note.newline_not_in_lines hmargin hlead (hcategories note hnote) hline

theorem forall₂_isLaidOut (margin lead : List Char) (notes : List Note) :
    List.Forall₂ (Note.IsLaidOut margin lead) notes (notes.map (Note.lines margin lead)) := by
  rw [List.forall₂_map_right_iff, List.forall₂_same]
  exact fun note _ => Note.isLaidOut_lines

/-- The notes of a report without colors, with labels or without. Their lines stand between those that the
report has without notes: under the rows of the labels and above the footer, or under the header. There is one
line for each part of a message, the parts of one message start in one column, and together they are the
message. -/
theorem notes_of_render (h : render catalog d = .ok text) (hcolors : d.config.colors = false)
    (hcategories : ∀ note ∈ d.notes, '\n' ∉ note.category.toList) :
    let chars := d.config.charSet
    ∃ plain above below sections margin lead,
      render catalog { d with notes := [] } = .ok plain ∧ lineParts plain.toList = above ++ below ∧
      lineParts text.toList = above ++ sections.flatten ++ below ∧
      List.Forall₂ (Note.IsLaidOut margin lead) d.notes sections ∧
      ((d.labels = [] ∧ margin = [] ∧ lead = [' ', ' ', '=', ' '] ∧ below = [[]] ∧
          ∀ note, Note.textColumn margin lead note = note.category.toList.length + 6) ∨
        ∃ p, Canvas.ofDiagnostic catalog d = .ok ⟨d, some p⟩ ∧
          margin = List.replicate p.gutterWidth ' ' ++ [chars.glyph .vbar, ' '] ∧ lead = [] ∧
          below = [footerLine chars p.gutterWidth, []] ∧
          ∀ note, Note.textColumn margin lead note =
            p.gutterWidth + 2 + (note.category.toList.length + 2)) := by
  intro chars
  obtain ⟨placement, plain, above, hcanvas, hrendered, hplain, htext⟩ := texts_of_render h hcolors
  cases placement with
  | none =>
    have hlabels : d.labels = [] := by
      by_contra hne
      obtain ⟨_, _, _, _, hc⟩ := (Canvas.ofDiagnostic_eq_ok hne).mp hcanvas
      cases hc
    have hnotes := lineParts_before List.not_mem_nil (show '\n' ∉ [' ', ' ', '=', ' '] by decide) hcategories
      (notes_text (fun i body _ => bareNote_text chars 0 i body) d.notes) []
    rw [List.append_nil] at hnotes
    refine ⟨plain, above, [[]], _, [], [' ', ' ', '=', ' '], hrendered, hplain, ?_,
      forall₂_isLaidOut _ _ _, .inl ⟨hlabels, rfl, rfl, rfl, fun note => ?_⟩⟩
    · rw [htext, List.append_assoc]
      exact congrArg _ hnotes
    · simp only [Note.textColumn, List.length_nil, List.length_cons]
      omega
  | some p =>
    have hfooter : lineParts ([Canvas.footer].flatMap (Row.text chars false p.gutterWidth)) =
        [footerLine chars p.gutterWidth, []] := by
      rw [List.flatMap_singleton, footer_text, lineParts_append_line,
        lineParts_single (newline_not_in_footer chars p.gutterWidth)]
      rfl
    have hmargin : '\n' ∉ List.replicate p.gutterWidth ' ' ++ [chars.glyph .vbar, ' '] :=
      newline_not_in_frame none .empty (by decide)
    have hnotes := lineParts_before hmargin List.not_mem_nil hcategories
      (notes_text (fun i body hbody => note_text chars p.gutterWidth i hbody) d.notes) [Canvas.footer]
    rw [hfooter] at hnotes
    refine ⟨plain, above, [footerLine chars p.gutterWidth, []], _, _, [], hrendered,
      hplain.trans (congrArg _ hfooter), ?_, forall₂_isLaidOut _ _ _,
      .inr ⟨p, hcanvas, rfl, rfl, rfl, fun note => ?_⟩⟩
    · rw [htext, List.append_assoc]
      exact congrArg _ hnotes
    · simp only [Note.textColumn, List.length_append, List.length_replicate, List.length_nil,
        List.length_cons]
      omega

/-- No labels, and notes with an empty message, with a line feed at the end and with blanks around a line. -/
def remarks : Diagnostic where
  sourceId := .name "letters"
  severity := .error
  message := "oops"
  notes := [⟨"note", "", .default⟩, ⟨"help", "first\n", .default⟩, ⟨"", " a \n\n b", .default⟩]
  config := { colors := false }

/-- The same notes below the labels of a snippet. -/
def labelledRemarks : Diagnostic :=
  { remarks with labels := [⟨.between 0 4, "across", .default⟩, ⟨.between 1 2, "within", .default⟩] }

/-- The notes with the bare layout, and with the framed one. -/
theorem remarks_notes :
    (∃ text above sections, render {} remarks = .ok text ∧
      lineParts text.toList = above ++ sections.flatten ++ [[]] ∧
      List.Forall₂ (Note.IsLaidOut [] [' ', ' ', '=', ' ']) remarks.notes sections) ∧
    ∃ text p above sections,
      render ⟨[(.name "letters", letters)]⟩ labelledRemarks = .ok text ∧
      Canvas.ofDiagnostic ⟨[(.name "letters", letters)]⟩ labelledRemarks = .ok ⟨labelledRemarks, some p⟩ ∧
      lineParts text.toList = above ++ sections.flatten ++ [footerLine .rounded p.gutterWidth, []] ∧
      List.Forall₂ (Note.IsLaidOut (List.replicate p.gutterWidth ' ' ++ ['│', ' ']) [])
        labelledRemarks.notes sections := by
  constructor
  · obtain ⟨text, hrendered⟩ := render_of_no_labels (d := remarks) {} rfl
    obtain ⟨plain, above, below, sections, margin, lead, _, _, hlines, hlaid, hcases⟩ :=
      notes_of_render hrendered rfl (by decide)
    rcases hcases with ⟨_, rfl, rfl, rfl, _⟩ | ⟨p, hcanvas, _⟩
    · exact ⟨text, above, sections, hrendered, hlines, hlaid⟩
    · cases hcanvas
  · have hsource : Catalog.find? ⟨[(.name "letters", letters)]⟩ labelledRemarks.sourceId = some letters := rfl
    have hfit : labelledRemarks.FitsIn letters := by decide
    obtain ⟨text, _, hrendered, _⟩ := exists_render_of_fitsIn (by decide) hsource hfit
    obtain ⟨plain, above, below, sections, margin, lead, _, _, hlines, hlaid, hcases⟩ :=
      notes_of_render hrendered rfl (by decide)
    rcases hcases with ⟨hlabels, _⟩ | ⟨p, hcanvas, rfl, rfl, rfl, _⟩
    · cases hlabels
    · exact ⟨text, p, above, sections, hrendered, hcanvas, hlines, hlaid⟩

end Callout

import Callout.Proofs.MessageRows
import Callout.Proofs.ShownText
import Callout.Proofs.UnderlineColumns

namespace Callout

theorem Target.ShowsIn.column_iff {t : Target} {slice : List Char} (h : t.ShowsIn slice) {c : Nat}
    (hc : c < (dropTerminators slice).length) : t.startColumn ≤ c ∧ c < t.endColumn ↔
      t.span.start ≤ byteWidth (slice.take c) ∧ byteWidth (slice.take c) < t.span.stop := by
  have hlength := (isPrefix_dropTerminators slice).length_le
  obtain ⟨left, right, hsplit, hleft, hstart⟩ := h.start
  obtain ⟨left', right', hsplit', hleft', hstop⟩ := h.stop
  have htake : slice.take left.length = left := by rw [hsplit, List.take_left]
  have htake' : slice.take left'.length = left' := by rw [hsplit', List.take_left]
  have hle : left.length ≤ slice.length := by rw [hsplit, List.length_append]; omega
  have hle' : left'.length ≤ slice.length := by rw [hsplit', List.length_append]; omega
  have hfirst := byteWidth_take_le_iff hle (show c ≤ slice.length by omega)
  have hlast := byteWidth_take_le_iff hle' (show c ≤ slice.length by omega)
  rw [htake, hleft] at hfirst
  rw [htake', hleft'] at hlast
  rw [hstart, hstop]
  omega

/-- A label is underlined in the columns of those of its characters that are shown, and its message is
to hang from one of them. -/
structure Target.MarksChars (t : Target) (attach : Attach) (slice : List Char) : Prop where
  columns : ∀ c < (dropTerminators slice).length, (t.startColumn ≤ c ∧ c < t.endColumn ↔
    t.span.start ≤ byteWidth (slice.take c) ∧ byteWidth (slice.take c) < t.span.stop)
  attachment : t.startColumn < t.endColumn →
    t.startColumn ≤ t.attachment attach ∧ t.attachment attach < t.endColumn

namespace Placement

variable {p : Placement} {config : Config} {line : Nat}

theorem codeCells_marks (fragments : List Fragment) : (codeCells fragments).map Cell.mark =
    (shownPieces (fragments.map Fragment.text)).map Mark.text := by
  induction fragments with
  | nil => rfl
  | cons f fragments ih =>
    have htext : ∀ color, (Cell.ofText color f.display).map Cell.mark =
        (dropTerminators f.text).map Mark.text := by
      intro color
      rw [Cell.ofText, List.map_map]
      rfl
    rw [codeCells, List.flatMap_cons, List.map_append, htext, ← codeCells, ih, shownPieces,
      shownPieces, List.map_cons, List.map_cons, List.flatten_cons, List.map_append]

/-- Trimming a row takes nothing of the code that ends it. -/
theorem drop_trimBlanks {lead : List Cell} (fragments : List Fragment) {width : Nat}
    (h : lead.length = width) :
    (trimBlanks (lead ++ codeCells fragments)).drop width = codeCells fragments := by
  rcases List.eq_nil_or_concat' (codeCells fragments) with hnil | ⟨init, last, hlast⟩
  · rw [hnil, List.append_nil]
    have hlead : trimBlanks lead <+: lead :=
      List.rdropWhile_prefix (· == Cell.blank) lead
    exact List.drop_eq_nil_of_le (h ▸ hlead.length_le)
  · have hcolor : last.color ≠ none := codeCells_color (by rw [hlast]; simp)
    have hkept : trimBlanks (lead ++ codeCells fragments) = lead ++ codeCells fragments := by
      rw [hlast, ← List.append_assoc]
      refine List.rdropWhile_concat_neg _ _ last ?_
      intro hblank
      rw [eq_of_beq hblank] at hcolor
      exact hcolor rfl
    rw [hkept, ← h, List.drop_left]

/-- The row with the code of a line shows the line without the terminators at its end, every character
in its column, unless a carriage return is hidden; then it does not. -/
structure ShowsCode (p : Placement) (line : Nat) (slice : List Char) (row : Row) : Prop where
  text_iff : (row.body.drop p.marginWidth).map Cell.mark = (dropTerminators slice).map Mark.text ↔
    ¬p.HidesReturn line
  char : ¬p.HidesReturn line → ∀ c < (dropTerminators slice).length,
    ((row.body.drop p.marginWidth)[c]?).map Cell.mark = (slice[c]?).map Mark.text

/-- The row below the code has underlines in the columns of the labels and anchors where messages hang
from: where its label asks for, or further right when the columns in between are taken. -/
structure ShowsColumns (p : Placement) (config : Config) (targets : List Target) (row : Row) :
    Prop where
  underline : ∀ c, HasGlyph row.body (p.marginWidth + c) .underline ↔ config.underlines = true ∧
    (∃ t ∈ targets, t.startColumn ≤ c ∧ c < t.endColumn) ∧
    ∀ a ∈ anchors config.attach targets, a.column ≠ c
  anchor : ∀ c, HasGlyph row.body (p.marginWidth + c) .underbar ↔
    ∃ a ∈ anchors config.attach targets, a.column = c
  place : ∀ a ∈ anchors config.attach targets, a.target.attachment config.attach ≤ a.column ∧
    ∀ c, a.target.attachment config.attach ≤ c → c < a.column →
      ∃ b ∈ anchors config.attach targets, b.column = c

theorem LineBlock.code_of_role (b : LineBlock p config line) (hline : line < p.source.lines.length)
    (haligned : p.AlignedOn line) {row : Row} (hrow : row ∈ b.rows) (hrole : row.role = .code line) :
    row.body = trimBlanks (b.lead ++ codeCells b.fragments) := by
  rcases b.mem_rows_cases hline haligned hrow with
    rfl | ⟨_, hbare⟩ | hbare | ⟨i, hlabel | hlabel, _⟩
  · rfl
  · cases hrole.symm.trans hbare.role_eq
  · cases hrole.symm.trans hbare.role_eq
  · cases hrole.symm.trans hlabel
  · cases hrole.symm.trans hlabel

theorem LineBlock.underlines_of_role (b : LineBlock p config line)
    (hline : line < p.source.lines.length) (haligned : p.AlignedOn line) {row : Row}
    (hrow : row ∈ b.rows) (hrole : row.role = .underlines line) :
    ∃ lead cells, lead.length = p.marginWidth ∧ row.body = trimBlanks (lead ++ cells) ∧
      underlineCells config.underlines b.targets (anchors config.attach b.targets) = .ok cells := by
  have hpointer : row ∈ b.pointers := by
    rcases b.mem_rows_cases hline haligned hrow with
      rfl | ⟨hpointer, _⟩ | hbare | ⟨i, hlabel | hlabel, _⟩
    · cases hrole
    · exact hpointer
    · cases hrole.symm.trans hbare.role_eq
    · cases hrole.symm.trans hlabel
    · cases hrole.symm.trans hlabel
  have hfits : ∀ e ∈ p.openOn line, 2 * e.slot < p.marginWidth := openList_fits
  obtain ⟨rows, hrows, hshown⟩ := pointerRows_shown config line b.targets hfits
  cases b.pointers_eq.symm.trans hrows
  rcases hshown with ⟨_, hnil⟩ | ⟨_, underlines, messages, hpointers, hbare, hcells, hall⟩
  · rw [hnil] at hpointer
    cases hpointer
  · rw [hpointers] at hpointer
    rcases List.mem_cons.mp hpointer with rfl | hmessage
    · exact hcells
    · obtain ⟨a, _, hshows⟩ := forall₂_mem_right hall hmessage
      cases hrole.symm.trans hshows.role_eq

theorem LineBlock.showsCode (b : LineBlock p config line) {slice : List Char}
    (hline : line < p.source.lines.length) (hslice : p.source.lineSlice line = .ok slice)
    (haligned : p.AlignedOn line) {row : Row} (hrow : row ∈ b.rows) (hrole : row.role = .code line) :
    p.ShowsCode line slice row := by
  obtain ⟨found, hfound⟩ := Source.exists_line hline
  obtain ⟨fragments, hfragments, hflatten, htexts⟩ :=
    fragments_of_alignedOn hfound hslice haligned
  cases b.fragments_eq.symm.trans hfragments
  have hbody := b.code_of_role hline haligned hrow hrole
  have hmarks : (row.body.drop p.marginWidth).map Cell.mark =
      (shownPieces (b.fragments.map Fragment.text)).map Mark.text := by
    rw [hbody, drop_trimBlanks b.fragments b.lead_length, codeCells_marks]
  have hiff := shownPieces_slice_iff hfound hslice hflatten htexts
  have hinjective : Function.Injective Mark.text := fun _ _ h => Mark.text.inj h
  refine ⟨?_, ?_⟩
  · rw [hmarks, (List.map_injective_iff.mpr hinjective).eq_iff, hiff]
  · intro hnone c hc
    obtain ⟨rest, hrest⟩ := isPrefix_dropTerminators slice
    have hchar : (dropTerminators slice)[c]? = slice[c]? := by
      conv_rhs => rw [← hrest]
      rw [List.getElem?_append_left hc]
    rw [← List.getElem?_map, hmarks, hiff.mpr hnone, List.getElem?_map, hchar]

theorem LineBlock.showsColumns (b : LineBlock p config line) (hline : line < p.source.lines.length)
    (haligned : p.AlignedOn line) {row : Row} (hrow : row ∈ b.rows)
    (hrole : row.role = .underlines line) : p.ShowsColumns config b.targets row := by
  obtain ⟨lead, cells, hlength, hbody, hcells⟩ := b.underlines_of_role hline haligned hrow hrole
  have hglyph : ∀ c r, HasGlyph row.body (p.marginWidth + c) r ↔ HasGlyph cells c r := by
    intro c r
    rw [hbody, hasGlyph_trimBlanks, ← hlength, hasGlyph_append]
  refine ⟨fun c => ?_, fun c => ?_, fun a ha => anchors_column ha⟩
  · rw [hglyph, (underlineCells_glyphs hcells c).2]
  · rw [hglyph, (underlineCells_glyphs hcells c).1]

theorem LineBlock.marksChars (b : LineBlock p config line) {slice : List Char}
    (hline : line < p.source.lines.length) (hslice : p.source.lineSlice line = .ok slice)
    (haligned : p.AlignedOn line) : ∀ t ∈ b.targets, t.MarksChars config.attach slice := by
  obtain ⟨found, hfound⟩ := Source.exists_line hline
  obtain ⟨targets, htargets, hall⟩ := targets_of_alignedOn hfound hslice haligned
  cases b.targets_eq.symm.trans htargets
  intro t ht
  obtain ⟨s, _, _, hshows⟩ := forall₂_mem_right hall ht
  exact ⟨fun c hc => hshows.column_iff hc, Target.attachment_bounds config.attach⟩

/-- A role that stands once in the block of its line stands once in the report. -/
theorem exists_unique_row_of_role {rows front block back : List Row} {role : Role}
    (hrole : role.line? = some line) (hblock : (block.map Row.role).count role = 1)
    (hsplit : rows = front ++ block ++ back)
    (hapart : ∀ row ∈ front ++ back, row.role.line? ≠ some line) :
    ∃ row, rows.filter (fun r => r.role == role) = [row] := by
  have hnone : ∀ part : List Row, (∀ row ∈ part, row.role.line? ≠ some line) →
      (part.map Row.role).count role = 0 := by
    intro part hpart
    rw [List.count_eq_zero]
    intro hmem
    obtain ⟨row, hrow, heq⟩ := List.mem_map.mp hmem
    exact hpart row hrow (heq ▸ hrole)
  have hcount : (rows.map Row.role).count role = 1 := by
    rw [hsplit, List.map_append, List.map_append, List.count_append, List.count_append, hblock,
      hnone front fun row hrow => hapart row (List.mem_append_left _ hrow),
      hnone back fun row hrow => hapart row (List.mem_append_right _ hrow)]
  rw [List.count, List.countP_map, List.countP_eq_length_filter] at hcount
  exact List.length_eq_one_iff.mp hcount

theorem IsBlock.count_code {block : List Row} {messages closings : List Nat}
    (h : p.IsBlock line block messages closings) : (block.map Row.role).count (.code line) = 1 := by
  rw [h.roles_eq, List.count_cons_self, List.count_append, Nat.add_eq_right, Nat.add_eq_zero_iff,
    List.count_eq_zero, List.count_eq_zero]
  constructor
  · split <;> simp
  · split <;> simp

theorem IsBlock.count_underlines {block : List Row} {messages closings : List Nat}
    (h : p.IsBlock line block messages closings) (hmessages : messages ≠ []) :
    (block.map Row.role).count (.underlines line) = 1 := by
  rw [h.roles_eq, if_neg hmessages, List.count_cons_of_ne (by simp), List.cons_append,
    List.count_cons_self, List.count_append, Nat.add_eq_right, Nat.add_eq_zero_iff,
    List.count_eq_zero, List.count_eq_zero]
  refine ⟨by simp, ?_⟩
  split <;> simp

end Placement

variable {catalog : Catalog} {d : Diagnostic} {text : String} {p : Placement}

/-- The rows of a relevant line stand together in a report, and are those of a block of the line. -/
theorem exists_line_rows (h : render catalog d = .ok text)
    (hcanvas : Canvas.ofDiagnostic catalog d = .ok ⟨d, some p⟩) :
    ∃ rows, (⟨d, some p⟩ : Canvas).rows = .ok rows ∧ ∀ line ∈ p.relevantLines,
      (∃ front block back messages closings, rows = front ++ block ++ back ∧
        p.IsBlock line block messages closings ∧ ∀ row ∈ front ++ back, row.role.line? ≠ some line) ∧
      ∀ row ∈ rows, row.role.line? = some line →
        ∃ b : p.LineBlock d.config line, row ∈ b.rows := by
  obtain ⟨hne, haligned, _⟩ := placement_of_render h hcanvas
  obtain ⟨above, chunks, below, hrows, hchunks, houter⟩ := Canvas.report_rows d hne haligned
  refine ⟨above ++ chunks.flatten ++ below, hrows, fun line hline => ⟨?_, fun row hrow hrole => ?_⟩⟩
  · exact exists_block_of_report
      (hchunks.imp fun line chunk ⟨hline, hchunk⟩ => hchunk.hasBlock hline.1 hline.2) houter hline
  · rcases mem_report_rows hchunks hrow with hout | ⟨k, chunk, hmem, ⟨hk, haligned⟩, hchunk⟩
    · cases (houter row hout).1.symm.trans hrole
    · exact Placement.exists_lineBlock_of_chunk hk haligned hchunk hmem hrole

/-- For every relevant line a report has one row with its code. It shows the line as it is, apart from
the terminators at its end, exactly when no label starts or stops behind a carriage return inside the
line. The row below it counts columns in the line itself. -/
theorem code_of_render (h : render catalog d = .ok text)
    (hcanvas : Canvas.ofDiagnostic catalog d = .ok ⟨d, some p⟩) :
    ∃ rows, (⟨d, some p⟩ : Canvas).rows = .ok rows ∧ ∀ line ∈ p.relevantLines,
      ∃ row slice targets, rows.filter (fun r => r.role == .code line) = [row] ∧
        p.source.lineSlice line = .ok slice ∧ p.ShowsCode line slice row ∧
        p.targets line (p.touching line) = .ok targets ∧
        targets.map (fun t => ((t.index, t.span), t.label)) = p.singles (p.touching line) ∧
        (∀ t ∈ targets, t.MarksChars d.config.attach slice) ∧
        ∀ below ∈ rows, below.role = .underlines line →
          p.ShowsColumns d.config targets below := by
  obtain ⟨_, haligned, _⟩ := placement_of_render h hcanvas
  obtain ⟨rows, hrows, hlines⟩ := exists_line_rows h hcanvas
  refine ⟨rows, hrows, fun line hline => ?_⟩
  obtain ⟨⟨front, block, back, messages, closings, hsplit, hblock, hapart⟩, hinside⟩ :=
    hlines line hline
  obtain ⟨row, hrow⟩ := Placement.exists_unique_row_of_role rfl hblock.count_code hsplit hapart
  have hlength := Placement.lt_length_of_mem_relevantLines hline
  have halignedOn := Placement.aligned_iff.mp haligned line hline
  obtain ⟨found, hfound⟩ := Source.exists_line hlength
  obtain ⟨slice, hslice, _⟩ := Source.exists_lineSlice hfound
  obtain ⟨hmem, hrole⟩ := List.mem_filter.mp (hrow ▸ List.mem_singleton_self row)
  have hrole : row.role = .code line := eq_of_beq hrole
  obtain ⟨b, hb⟩ := hinside row hmem (by rw [hrole]; rfl)
  refine ⟨row, slice, b.targets, hrow, hslice, b.showsCode hlength hslice halignedOn hb hrole,
    b.targets_eq, b.targets_eq_singles hlength halignedOn, b.marksChars hlength hslice halignedOn, ?_⟩
  intro under hunder hunderRole
  obtain ⟨b', hb'⟩ := hinside under hunder (by rw [hunderRole]; rfl)
  have htargets : b'.targets = b.targets := Except.ok.inj (b'.targets_eq.symm.trans b.targets_eq)
  exact htargets ▸ b'.showsColumns hlength halignedOn hb' hunderRole

theorem code_crossing : ∃ p rows,
    Canvas.ofDiagnostic ⟨[(.name "letters", letters)]⟩ crossing = .ok ⟨crossing, some p⟩ ∧
      (⟨crossing, some p⟩ : Canvas).rows = .ok rows ∧ ∀ line ∈ p.relevantLines, ∃ row slice,
        rows.filter (fun r => r.role == .code line) = [row] ∧ p.ShowsCode line slice row := by
  obtain ⟨text, p, htext, hcanvas⟩ := crossing_rendered
  obtain ⟨rows, hrows, hcode⟩ := code_of_render htext hcanvas
  refine ⟨p, rows, hcanvas, hrows, fun line hline => ?_⟩
  obtain ⟨row, slice, _, hrow, _, hshows, _⟩ := hcode line hline
  exact ⟨row, slice, hrow, hshows⟩

/-- A label that stops behind a carriage return, with one more character in the line. -/
def returnLabel : Diagnostic where
  sourceId := .name "main.rz"
  severity := .error
  message := "oops"
  labels := [⟨⟨0, 2, by omega⟩, "m", .default⟩]

/-- The carriage return inside the line is not shown, and the character behind it stands one column
too far to the left. -/
theorem returnLabel_code :
    (Source.ofText ['a', '\r', 'b']).lineSlice 0 = .ok ['a', '\r', 'b'] ∧
    dropTerminators ['a', '\r', 'b'] = ['a', '\r', 'b'] ∧
    ((Canvas.ofDiagnostic ⟨[(.name "main.rz", Source.ofText ['a', '\r', 'b'])]⟩ returnLabel).bind
      fun c => c.rows.map fun rows => (rows.filter fun r => r.role == .code 0).map fun r =>
        (r.body.drop c.marginWidth).map Cell.mark) = .ok [[.text 'a', .text 'b']] := by
  decide +kernel

end Callout

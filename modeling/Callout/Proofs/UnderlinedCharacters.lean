import Callout.Proofs.AnchorPlacement
import Callout.Proofs.CodeRow

namespace Callout

/-- The cell in a column of a row. A row is blank behind its end. -/
def cellAt (row : List Cell) (column : Nat) : Cell :=
  (row[column]?).getD .blank

/-- How a row below the code shows a character of the line: with an underline in the color of the innermost
label on this one line that holds the character, which is the color of the character's piece of code if
that piece has a label on this one line. A column without an underline is blank. -/
structure Placement.Underlines (p : Placement) (labels : List Label) (line : Nat) (slice : List Char)
    (fragments : List Fragment) (row : Row) (c : Nat) : Prop where
  glyph_iff : (cellAt row.body (p.marginWidth + c)).mark = .glyph .underline ↔
    c < (dropTerminators slice).length ∧
      ∃ j mark, p.source.IsMarkWithin labels line j mark ∧ mark.Holds (byteWidth (slice.take c))
  blank : (cellAt row.body (p.marginWidth + c)).mark ≠ .glyph .underline →
    cellAt row.body (p.marginWidth + c) = .blank
  color : (cellAt row.body (p.marginWidth + c)).mark = .glyph .underline → ∃ j mark label,
    IsInnermost (p.source.IsMarkWithin labels line) (byteWidth (slice.take c)) j mark ∧
      (sortLabels labels)[j]? = some label ∧
      cellAt row.body (p.marginWidth + c) = .drawn .underline label.color
  fragment : c < (dropTerminators slice).length → ∃ front f back, fragments = front ++ f :: back ∧
    f.span.Holds (byteWidth (slice.take c)) ∧
    (∀ g ∈ front ++ back, ¬g.span.Holds (byteWidth (slice.take c))) ∧
    ∀ j, f.owner = some j → f.isMultiline = false →
      (∃ mark, IsInnermost (p.source.IsMarkWithin labels line) (byteWidth (slice.take c)) j mark) ∧
        cellAt row.body (p.marginWidth + c) = .drawn .underline f.color

section Cells

variable {row : List Cell} {c : Nat}

theorem cellAt_append (lead row : List Cell) (c : Nat) :
    cellAt (lead ++ row) (lead.length + c) = cellAt row c := by
  rw [cellAt, List.getElem?_append_right (Nat.le_add_right _ _), Nat.add_sub_cancel_left, cellAt]

theorem cellAt_append_blanks (row : List Cell) (n c : Nat) :
    cellAt (row ++ List.replicate n .blank) c = cellAt row c := by
  rcases Nat.lt_or_ge c row.length with hlt | hge
  · rw [cellAt, List.getElem?_append_left hlt, cellAt]
  · rw [cellAt, List.getElem?_append_right hge, cellAt, List.getElem?_eq_none hge,
      List.getElem?_replicate]
    split <;> rfl

theorem cellAt_trimBlanks (row : List Cell) (c : Nat) : cellAt (trimBlanks row) c = cellAt row c := by
  obtain ⟨n, hrow⟩ := exists_trimmed_blanks row
  conv_rhs => rw [hrow]
  exact (cellAt_append_blanks _ n c).symm

theorem cellAt_of_getElem? {cell : Cell} (h : row[c]? = some cell) : cellAt row c = cell := by
  rw [cellAt, h, Option.getD_some]

/-- Where no message hangs, a column has the underline of the innermost target above it, and is blank
if there is none. -/
theorem underlineCells_cell {targets : List Target} {anchors : List Anchor}
    (h : underlineCells true targets anchors = .ok row) (hfree : ∀ a ∈ anchors, a.column ≠ c) :
    cellAt row c = .blank ∧ (∀ t ∈ targets, ¬t.Covers c) ∨
      ∃ t ∈ targets, t.Covers c ∧ (∀ u ∈ targets, u.Covers c → t.IsInner u) ∧
        cellAt row c = .drawn .underline t.label.color := by
  have hglyph := (underlineCells_glyphs h c).2
  by_cases hblank : cellAt row c = .blank
  · refine .inl ⟨hblank, fun t ht hcovers => ?_⟩
    obtain ⟨cell, hcell, hmark⟩ :=
      Option.map_eq_some_iff.mp (hglyph.mpr ⟨rfl, ⟨t, ht, hcovers⟩, hfree⟩)
    rw [cellAt_of_getElem? hcell] at hblank
    rw [hblank] at hmark
    cases hmark
  · right
    cases hcell : row[c]? with
    | none => exact absurd (by rw [cellAt, hcell]; rfl) hblank
    | some cell =>
      have hcellAt := cellAt_of_getElem? hcell
      rcases underlineCells_cases h hcell (hcellAt ▸ hblank) with
        ⟨a, ha, hcolumn, _⟩ | ⟨t, ht, hcovers, hinner, hdrawn⟩
      · exact absurd hcolumn (hfree a ha)
      · exact ⟨t, ht, hcovers, hinner, hcellAt.trans hdrawn⟩

end Cells

theorem byteWidth_take_lt {text : List Char} {c : Nat} (hc : c < (dropTerminators text).length) :
    byteWidth (text.take c) < byteWidth text := by
  have hlength := (isPrefix_dropTerminators text).length_le
  have hmono : byteWidth (text.take text.length) ≤ byteWidth (text.take c) ↔ text.length ≤ c :=
    byteWidth_take_le_iff (Nat.le_refl _) (by omega)
  rw [List.take_length] at hmono
  omega

/-- A target is above a column exactly when its mark holds the character that is shown there. -/
theorem Target.ShowsIn.covers_iff {t : Target} {slice : List Char} (h : t.ShowsIn slice) {c : Nat} :
    t.Covers c ↔ c < (dropTerminators slice).length ∧ t.span.Holds (byteWidth (slice.take c)) := by
  constructor
  · intro hcovers
    obtain ⟨_, left, _, _, hstop⟩ := h.stop
    have hc : c < (dropTerminators slice).length := by
      have := hcovers.2
      omega
    exact ⟨hc, (h.column_iff hc).mp hcovers⟩
  · rintro ⟨hc, hholds⟩
    exact (h.column_iff hc).mpr hholds

namespace Placement

variable {p : Placement} {config : Config} {source : Source} {labels : List Label}
  {line b c j : Nat} {mark : Span} {slice : List Char} {row : Row}

theorem exists_single (hp : ofLabels source labels = .ok p) {label : Label} (hlabel : label ∈ labels)
    (h : source.spanLines label.span = .ok (line, line)) :
    ∃ (i : Nat) (l : Placed), p.labels[i]? = some l ∧ l.isMultiline = false ∧ l.startLine = line := by
  obtain ⟨rfl, hlabels⟩ := ofLabels_eq_ok hp
  rw [← mem_sortLabels, ← hlabels] at hlabel
  obtain ⟨l, hmem, rfl⟩ := List.mem_map.mp hlabel
  obtain ⟨hstart, hend⟩ := Prod.mk.inj (Except.ok.inj ((p.lines_eq l hmem).symm.trans h))
  obtain ⟨i, hl⟩ := List.mem_iff_getElem?.mp hmem
  exact ⟨i, l, hl, isMultiline_eq_false_iff.mpr (hstart.trans hend.symm), hstart⟩

theorem isMark_of_isMarkWithin (h : source.IsMarkWithin labels line j mark) :
    source.IsMark labels line j mark := by
  obtain ⟨label, hlabel, _, hmark⟩ := h
  exact ⟨label, hlabel, hmark⟩

theorem LineBlock.targetsOf (b : LineBlock p config line) (hp : ofLabels source labels = .ok p)
    (hline : line < p.source.lines.length) (hslice : p.source.lineSlice line = .ok slice) :
    TargetsOf source labels line slice (p.touching line) b.targets := by
  obtain ⟨rfl, _⟩ := ofLabels_eq_ok hp
  obtain ⟨found, hfound⟩ := Source.exists_line hline
  exact targetsOf_targets hp hfound hslice (List.Sublist.refl _) b.targets_eq

theorem exists_target_iff {targets : List Target} (hp : ofLabels source labels = .ok p)
    (h : TargetsOf source labels line slice (p.touching line) targets) :
    (∃ t ∈ targets, t.index = j ∧ t.span = mark) ↔ source.IsMarkWithin labels line j mark := by
  rw [h.exists_iff]
  exact and_iff_right_of_imp fun hwithin => (isMark_iff hp).mp (isMark_of_isMarkWithin hwithin)

theorem isInnermost_of_target {targets : List Target} (hp : ofLabels source labels = .ok p)
    (h : TargetsOf source labels line slice (p.touching line) targets) {t : Target}
    (ht : t ∈ targets) (hcovers : t.Covers c) (hinner : ∀ u ∈ targets, u.Covers c → t.IsInner u) :
    IsInnermost (source.IsMarkWithin labels line) (byteWidth (slice.take c)) t.index t.span := by
  obtain ⟨hc, hholds⟩ := (h.showsIn t ht).covers_iff.mp hcovers
  refine ⟨(exists_target_iff hp h).mp ⟨t, ht, rfl, rfl⟩, hholds, fun k other hother hother' => ?_⟩
  obtain ⟨u, hu, rfl, rfl⟩ := (exists_target_iff hp h).mpr hother
  exact hinner u hu ((h.showsIn u hu).covers_iff.mpr ⟨hc, hother'⟩)

theorem exists_covers_iff {targets : List Target} (hp : ofLabels source labels = .ok p)
    (h : TargetsOf source labels line slice (p.touching line) targets) :
    (∃ t ∈ targets, t.Covers c) ↔ c < (dropTerminators slice).length ∧
      ∃ j mark, source.IsMarkWithin labels line j mark ∧ mark.Holds (byteWidth (slice.take c)) := by
  constructor
  · rintro ⟨t, ht, hcovers⟩
    obtain ⟨hc, hholds⟩ := (h.showsIn t ht).covers_iff.mp hcovers
    exact ⟨hc, t.index, t.span, (exists_target_iff hp h).mp ⟨t, ht, rfl, rfl⟩, hholds⟩
  · rintro ⟨hc, j, mark, hwithin, hholds⟩
    obtain ⟨t, ht, rfl, rfl⟩ := (exists_target_iff hp h).mpr hwithin
    exact ⟨t, ht, (h.showsIn t ht).covers_iff.mpr ⟨hc, hholds⟩⟩

/-- A piece of code with a label on this one line has the innermost of the labels on this one line. -/
theorem isInnermost_of_owner {found : Line} {fragments : List Fragment} {f : Fragment}
    (hp : ofLabels source labels = .ok p) (hline : p.source.lines[line]? = some found)
    (h : p.fragments line = .ok fragments) (hf : f ∈ fragments) (hb : f.span.Holds b)
    (howner : f.owner = some j) (hone : f.isMultiline = false) :
    ∃ mark label, IsInnermost (source.IsMarkWithin labels line) b j mark ∧
      (sortLabels labels)[j]? = some label ∧ f.color = label.color := by
  obtain ⟨mark, hmark⟩ := (owner_eq_some_iff hp hline h hf hb).mp howner
  obtain ⟨l, hl, hlocal⟩ := mem_touching_iff.mp ((isMark_iff hp).mp hmark.isMark)
  have hpresents := fragment_presents (exists_piece_of_fragment hline h hf) howner hl
  obtain ⟨startLine, endLine, hlines, hmulti, _⟩ := hpresents.lines
  have hsame : l.isMultiline = false := by
    cases (p.lines_eq l (List.mem_of_getElem? hl)).symm.trans hlines
    rw [isMultiline_eq_false_iff]
    by_contra hne
    rw [hmulti.mpr hne] at hone
    cases hone
  refine ⟨mark, l.label, ⟨(isMarkWithin_iff hp).mpr ⟨l, hl, hsame, hlocal⟩, hmark.holds, ?_⟩, ?_,
    hpresents.color_eq⟩
  · exact fun k other hother => hmark.inner k other (isMark_of_isMarkWithin hother)
  · rw [← (ofLabels_eq_ok hp).2, List.getElem?_map, hl, Option.map_some]

/-- What the row below the code shows in a column where no message hangs. -/
theorem LineBlock.underline_cases (b : LineBlock p config line) (hp : ofLabels source labels = .ok p)
    (hline : line < p.source.lines.length) (hslice : p.source.lineSlice line = .ok slice)
    (haligned : p.AlignedOn line) (hunderlines : config.underlines = true) (hrow : row ∈ b.rows)
    (hrole : row.role = .underlines line)
    (hfree : ∀ a ∈ anchors config.attach b.targets, a.column ≠ c) :
    cellAt row.body (p.marginWidth + c) = .blank ∧ (¬∃ t ∈ b.targets, t.Covers c) ∨
      (∃ t ∈ b.targets, t.Covers c) ∧ ∃ j mark label,
        IsInnermost (source.IsMarkWithin labels line) (byteWidth (slice.take c)) j mark ∧
          (sortLabels labels)[j]? = some label ∧
          cellAt row.body (p.marginWidth + c) = .drawn .underline label.color := by
  obtain ⟨lead, cells, hlength, hbody, hcells⟩ := b.underlines_of_role hline haligned hrow hrole
  rw [hunderlines] at hcells
  rw [hbody, cellAt_trimBlanks, ← hlength, cellAt_append]
  rcases underlineCells_cell hcells hfree with ⟨hblank, hnone⟩ | ⟨t, ht, hcovers, hinner, hdrawn⟩
  · exact .inl ⟨hblank, fun ⟨t, ht, hcovers⟩ => hnone t ht hcovers⟩
  · obtain ⟨l, hl, _, _, hlabel, _⟩ := mem_targets (b.targets_eq_singles hline haligned) ht
    refine .inr ⟨⟨t, ht, hcovers⟩, t.index, t.span, t.label,
      isInnermost_of_target hp (b.targetsOf hp hline hslice) ht hcovers hinner, ?_, hdrawn⟩
    rw [← (ofLabels_eq_ok hp).2, List.getElem?_map, hl, Option.map_some, hlabel]

theorem LineBlock.underlines (b : LineBlock p config line) (hp : ofLabels p.source labels = .ok p)
    (hline : line < p.source.lines.length) (hslice : p.source.lineSlice line = .ok slice)
    (haligned : p.AlignedOn line) (hunderlines : config.underlines = true) (hrow : row ∈ b.rows)
    (hrole : row.role = .underlines line)
    (hfree : ∀ a ∈ anchors config.attach b.targets, a.column ≠ c) :
    p.Underlines labels line slice b.fragments row c := by
  have hcovered := exists_covers_iff (c := c) hp (b.targetsOf hp hline hslice)
  have hshown := b.underline_cases hp hline hslice haligned hunderlines hrow hrole hfree
  refine ⟨?_, fun hnot => ?_, fun hglyph => ?_, fun hc => ?_⟩
  · rw [← hcovered]
    rcases hshown with ⟨hblank, hnone⟩ | ⟨hsome, _, _, _, _, _, hdrawn⟩
    · rw [hblank]
      exact iff_of_false (fun hglyph => by cases hglyph) hnone
    · rw [hdrawn]
      exact iff_of_true rfl hsome
  · rcases hshown with ⟨hblank, _⟩ | ⟨_, _, _, _, _, _, hdrawn⟩
    · exact hblank
    · exact absurd (by rw [hdrawn]; rfl) hnot
  · rcases hshown with ⟨hblank, _⟩ | ⟨_, hdrawn⟩
    · rw [hblank] at hglyph
      cases hglyph
    · exact hdrawn
  · obtain ⟨found, hfound⟩ := Source.exists_line hline
    obtain ⟨slice', hslice', hwidth, _⟩ := Source.exists_lineSlice hfound
    cases hslice.symm.trans hslice'
    have hpartition := fragments_partition hfound hslice b.fragments_eq
    obtain ⟨front, f, back, hsplit, hholds, hothers⟩ := exists_piece_of_byte hpartition.contiguous
      (Nat.zero_le _) (hwidth ▸ byteWidth_take_lt hc)
    refine ⟨front, f, back, hsplit, hholds, hothers, fun j howner hone => ?_⟩
    obtain ⟨mark, label, hinnermost, hlabel, hcolor⟩ := isInnermost_of_owner hp hfound b.fragments_eq
      (by rw [hsplit]; simp) hholds howner hone
    refine ⟨⟨mark, hinnermost⟩, ?_⟩
    rcases hshown with ⟨_, hnone⟩ | ⟨_, k, other, label', hinnermost', hlabel', hdrawn⟩
    · exact absurd (hcovered.mpr ⟨hc, j, mark, hinnermost.isMark, hinnermost.holds⟩) hnone
    · cases hinnermost.unique hinnermost'
      cases hlabel.symm.trans hlabel'
      rw [hdrawn, hcolor]

end Placement

variable {catalog : Catalog} {d : Diagnostic} {text : String} {p : Placement}

/-- Below the code of a line with a label that lies on it stands one row that, where no message hangs,
underlines the characters of such labels, each in the color of the innermost. -/
theorem underlines_of_render (h : render catalog d = .ok text)
    (hcanvas : Canvas.ofDiagnostic catalog d = .ok ⟨d, some p⟩)
    (hunderlines : d.config.underlines = true) :
    ∃ rows, (⟨d, some p⟩ : Canvas).rows = .ok rows ∧
      ∀ line, (∃ label ∈ d.labels, p.source.spanLines label.span = .ok (line, line)) →
        ∃ row slice targets fragments,
          rows.filter (fun r => r.role == .underlines line) = [row] ∧
          p.source.lineSlice line = .ok slice ∧
          p.targets line (p.touching line) = .ok targets ∧ p.fragments line = .ok fragments ∧
          ∀ c, (∀ a ∈ anchors d.config.attach targets, a.column ≠ c) →
            p.Underlines d.labels line slice fragments row c := by
  obtain ⟨_, haligned, _⟩ := placement_of_render h hcanvas
  obtain ⟨_, _, hp⟩ := Canvas.placed hcanvas
  obtain ⟨rows, hrows, hlines⟩ := exists_line_rows h hcanvas
  refine ⟨rows, hrows, fun line ⟨label, hlabel, hspan⟩ => ?_⟩
  obtain ⟨i, l, hl, hone, hstart⟩ := Placement.exists_single hp hlabel hspan
  have hrelevant :=
    Placement.mem_relevantLines_iff.mpr ⟨l, List.mem_of_getElem? hl, .inl hstart⟩
  obtain ⟨⟨front, block, back, messages, closings, hsplit, hblock, hapart⟩, hinside⟩ :=
    hlines line hrelevant
  have hmessages : messages ≠ [] :=
    List.ne_nil_of_mem ((hblock.mem_messages i).mpr ⟨l, hl, hone, hstart⟩)
  obtain ⟨row, hrow⟩ := Placement.exists_unique_row_of_role rfl (hblock.count_underlines hmessages)
    hsplit hapart
  have hlength := Placement.lt_length_of_mem_relevantLines hrelevant
  have halignedOn := Placement.aligned_iff.mp haligned line hrelevant
  obtain ⟨found, hfound⟩ := Source.exists_line hlength
  obtain ⟨slice, hslice, _⟩ := Source.exists_lineSlice hfound
  obtain ⟨hmem, hrole⟩ := List.mem_filter.mp (hrow ▸ List.mem_singleton_self row)
  have hrole : row.role = .underlines line := eq_of_beq hrole
  obtain ⟨b, hb⟩ := hinside row hmem (by rw [hrole]; rfl)
  exact ⟨row, slice, b.targets, b.fragments, hrow, hslice, b.targets_eq, b.fragments_eq,
    fun c hfree => b.underlines hp hlength hslice halignedOn hunderlines hb hrole hfree⟩

/-- One line of ten letters. -/
def tenLetters : Source :=
  Source.ofText ['a', 'b', 'c', 'd', 'e', 'f', 'g', 'h', 'i', 'j']

/-- A label of several letters inside another one. -/
def inlaid : Diagnostic where
  sourceId := .name "letters"
  severity := .error
  message := "inlaid"
  labels := [⟨.between 0 8, "around", .basic .red⟩, ⟨.between 2 5, "inside", .basic .blue⟩]

/-- All letters of the label around are underlined where no message hangs. -/
theorem underlines_inlaid : inlaid.config.underlines = true ∧
    ∃ text p rows row slice targets fragments,
      render ⟨[(.name "letters", tenLetters)]⟩ inlaid = .ok text ∧
      Canvas.ofDiagnostic ⟨[(.name "letters", tenLetters)]⟩ inlaid = .ok ⟨inlaid, some p⟩ ∧
      (⟨inlaid, some p⟩ : Canvas).rows = .ok rows ∧
      rows.filter (fun r => r.role == .underlines 0) = [row] ∧
      p.source.lineSlice 0 = .ok slice ∧ p.targets 0 (p.touching 0) = .ok targets ∧
      p.fragments 0 = .ok fragments ∧ ∀ c,
        (∀ a ∈ anchors inlaid.config.attach targets, a.column ≠ c) →
          p.Underlines inlaid.labels 0 slice fragments row c ∧
          (c < 8 → (cellAt row.body (p.marginWidth + c)).mark = .glyph .underline) := by
  have hfind : Catalog.find? ⟨[(.name "letters", tenLetters)]⟩ inlaid.sourceId = some tenLetters := rfl
  have hfit : inlaid.FitsIn tenLetters := by decide
  obtain ⟨text, p, htext, hcanvas⟩ := exists_render_of_fitsIn (by decide) hfind hfit
  obtain ⟨_, hfound, _⟩ := Canvas.placed hcanvas
  have hsource : tenLetters = p.source := Option.some.inj (hfind.symm.trans hfound)
  have haround : ⟨.between 0 8, "around", .basic .red⟩ ∈ inlaid.labels := List.mem_cons_self
  have hspan : p.source.spanLines (.between 0 8) = .ok (0, 0) := by
    rw [← hsource]
    decide
  obtain ⟨rows, hrows, hlines⟩ := underlines_of_render htext hcanvas rfl
  obtain ⟨row, slice, targets, fragments, hrow, hslice, htargets, hfragments, hunderlines⟩ :=
    hlines 0 ⟨_, haround, hspan⟩
  have hletters : tenLetters.lineSlice 0 = .ok tenLetters.text := rfl
  rw [hsource] at hletters
  cases hletters.symm.trans hslice
  obtain ⟨j, hj⟩ := List.mem_iff_getElem?.mp (Placement.mem_sortLabels.mpr haround)
  have hmark : p.source.IsMarkWithin inlaid.labels 0 j (.between 0 8) := by
    rw [← hsource]
    exact ⟨_, hj, by decide, by decide⟩
  refine ⟨rfl, text, p, rows, row, _, targets, fragments, htext, hcanvas, hrows, hrow, hslice, htargets,
    hfragments, fun c hfree => ⟨hunderlines c hfree, fun hc => ?_⟩⟩
  have hlength : (dropTerminators tenLetters.text).length = 10 := by decide
  have hwidth : ∀ c < 8, byteWidth (tenLetters.text.take c) < 8 := by decide
  rw [hsource] at hlength hwidth
  exact (hunderlines c hfree).glyph_iff.mpr ⟨by omega, j, _, hmark, Nat.zero_le _, hwidth c hc⟩

end Callout

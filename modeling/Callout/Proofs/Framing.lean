import Callout.Proofs.RowCharacters

namespace Callout

theorem length_toString_mono {m n : Nat} (h : m ≤ n) :
    (toString m).toList.length ≤ (toString n).toList.length := by
  have hm : (toString m).toList = Nat.toDigits 10 m := by simp
  have hn : (toString n).toList = Nat.toDigits 10 n := by simp
  have hpos : 0 < (Nat.toDigits 10 n).length := Nat.length_toDigits_pos
  have hlt : n < 10 ^ (Nat.toDigits 10 n).length :=
    (Nat.length_toDigits_le_iff (by omega) hpos).mp (Nat.le_refl _)
  rw [hm, hn, Nat.length_toDigits_le_iff (by omega) hpos]
  omega

namespace Placement

variable {p : Placement}

theorem relevantLines_head? {first : Placed} {rest : List Placed} (h : p.labels = first :: rest) :
    p.relevantLines.head? = some first.startLine := by
  have hmem : first.startLine ∈ p.relevantLines :=
    mem_relevantLines_iff.mpr ⟨first, by simp [h], .inl rfl⟩
  have hle : ∀ line ∈ p.relevantLines, first.startLine ≤ line := by
    intro line hline
    obtain ⟨l, hl, hends⟩ := mem_relevantLines_iff.mp hline
    obtain ⟨i, hi⟩ := List.mem_iff_getElem?.mp hl
    have hfirst : p.labels[0]? = some first := by simp [h]
    have hstart := startLine_mono hfirst hi (Nat.zero_le i)
    have hend := startLine_le_endLine hl
    omega
  have hincreasing := p.relevantLines_increasing
  cases hlines : p.relevantLines with
  | nil =>
    rw [hlines] at hmem
    cases hmem
  | cons line lines =>
    rw [hlines] at hmem hle hincreasing
    have hline := hle line List.mem_cons_self
    rcases List.mem_cons.mp hmem with heq | hlater
    · rw [heq, List.head?_cons]
    · have := (List.pairwise_cons.mp hincreasing).1 _ hlater
      omega

theorem le_last_of_mem_relevantLines {line : Nat} (h : line ∈ p.relevantLines) :
    ∃ last, p.relevantLines.getLast? = some last ∧ line ≤ last := by
  obtain ⟨init, last, hlast⟩ :=
    (List.eq_nil_or_concat' p.relevantLines).resolve_left (List.ne_nil_of_mem h)
  refine ⟨last, by rw [hlast, List.getLast?_concat], ?_⟩
  have hincreasing := p.relevantLines_increasing
  rw [hlast] at h hincreasing
  rcases List.mem_append.mp h with h | h
  · exact Nat.le_of_lt ((List.pairwise_append.mp hincreasing).2.2 line h last (by simp))
  · exact Nat.le_of_eq (List.mem_singleton.mp h)

/-- The number of a relevant line leaves room for a blank on either side. -/
theorem number_fits {line : Nat} (h : line ∈ p.relevantLines) :
    (toString (line + 1)).toList.length + 2 ≤ p.gutterWidth := by
  obtain ⟨last, hlast, hle⟩ := le_last_of_mem_relevantLines h
  have hmono := length_toString_mono (Nat.add_le_add_right hle 1)
  have hwidth : p.gutterWidth = (toString (last + 1)).length + 2 := by
    rw [gutterWidth, hlast]
  have hlength := String.length_toList (s := toString (last + 1))
  omega

theorem locus_line {locus : Locus} (h : p.locus = .ok locus) :
    (p.relevantLines.map (· + 1)).head? = some locus.line := by
  cases hlabels : p.labels with
  | nil =>
    rw [Placement.locus, hlabels] at h
    cases h
  | cons first rest =>
    have hmem : first ∈ p.labels := by simp [hlabels]
    obtain ⟨line, hline⟩ := Source.exists_line (startLine_lt_length hmem)
    have heq := locus_eq hmem hline
    rw [Placement.locus, hlabels] at h
    change p.source.locus first.label.span = .ok locus at h
    rw [heq] at h
    rw [List.head?_map, relevantLines_head? hlabels, Option.map_some]
    cases htext : p.source.textBetween line.byteOffset first.label.span.start with
    | error e =>
      rw [htext] at h
      cases h
    | ok before =>
      rw [htext] at h
      cases h
      rfl

end Placement

/-- The shape of a row behind a gutter. The gutter is blank or has a number before one blank; behind the
bar stands nothing, or one blank and a body. Rows of code and of notes may end in a blank, and no other
row does. -/
structure Row.IsFramed (chars : CharSet) (width : Nat) (row : Row) (gutter : List Char) (bar : Char)
    (rest : List Char) : Prop where
  text_eq : row.text chars false width = gutter ++ bar :: rest ++ ['\n']
  width_eq : gutter.length = width
  gutter_eq : (row.role.number? = none ∧ gutter = List.replicate width ' ') ∨
    ∃ n blanks, row.role.number? = some n ∧
      gutter = List.replicate blanks ' ' ++ (toString n).toList ++ [' ']
  bar_eq : bar = if row.role = .gap then chars.glyph .vbarGap else chars.glyph .vbar
  rest_eq : rest = [] ∨ ∃ body, body ≠ [] ∧ rest = ' ' :: body
  last_ne : (∀ line, row.role ≠ .code line) → (∀ i, row.role ≠ .note i) →
    (gutter ++ bar :: rest).getLast? ≠ some ' '

section Framed

variable {chars : CharSet} {width : Nat} {row : Row}

theorem glyph_bar (role : Role) :
    chars.glyph role.bar = if role = .gap then chars.glyph .vbarGap else chars.glyph .vbar := by
  cases role <;> rfl

theorem length_gutterText {number : Option Nat}
    (h : ∀ n, number = some n → (toString n).toList.length + 2 ≤ width) :
    (gutterText width number).length = width := by
  cases number with
  | none => exact List.length_replicate
  | some n =>
    have hfits := h n rfl
    simp only [gutterText, List.length_append, List.length_replicate, List.length_singleton]
    omega

theorem ne_blank_of_glyph (role : Glyph) : chars.glyph role ≠ ' ' := by
  have hlt := chars.blank_lt_glyph role
  intro heq
  rw [heq] at hlt
  exact Char.lt_irrefl _ hlt

theorem shown_ne_blank {cell : Cell} (hcell : cell ≠ .blank)
    (h : cell.IsFrame ∨ ∃ c, cell = ⟨.text c, none⟩) : cell.shown chars ≠ ' ' := by
  rcases h with (rfl | ⟨role, color, rfl⟩) | ⟨c, rfl⟩
  · exact absurd rfl hcell
  · exact ne_blank_of_glyph role
  · rintro heq
    have hc : c = ' ' := heq
    exact hcell (by rw [hc]; rfl)

/-- Cells without blank ones at their end end in a character that is no blank, if no cell is a colored
blank. -/
theorem last_shown_ne_blank {cells : List Cell}
    (h : ∀ cell ∈ cells, cell.IsFrame ∨ ∃ c, cell = ⟨.text c, none⟩) :
    ((trimBlanks cells).map (Cell.shown chars)).getLast? ≠ some ' ' := by
  intro hlast
  rw [List.getLast?_map, Option.map_eq_some_iff] at hlast
  obtain ⟨cell, hcell, hshown⟩ := hlast
  have hmem : cell ∈ cells := mem_trimBlanks (List.mem_of_getLast? hcell)
  have hkept : cell ≠ .blank := by
    have hne : trimBlanks cells ≠ [] := List.ne_nil_of_mem (List.mem_of_getLast? hcell)
    have hnot := List.rdropWhile_last_not (· == Cell.blank) cells hne
    have heq : (trimBlanks cells).getLast hne = cell :=
      Option.some.inj ((List.getLast?_eq_some_getLast hne).symm.trans hcell)
    intro hblank
    apply hnot
    change ((trimBlanks cells).getLast hne == Cell.blank) = true
    rw [heq, hblank]
    exact beq_self_eq_true _
  exact shown_ne_blank hkept (h cell hmem) hshown

theorem Row.isFramed (hinside : row.role.isInside = true)
    (hfits : ∀ n, row.role.number? = some n → (toString n).toList.length + 2 ≤ width)
    (hlast : (∀ line, row.role ≠ .code line) → (∀ i, row.role ≠ .note i) →
      (row.body.map (Cell.shown chars)).getLast? ≠ some ' ') :
    ∃ gutter bar rest, row.IsFramed chars width gutter bar rest := by
  refine ⟨gutterText width row.role.number?, chars.glyph row.role.bar,
    if row.body.isEmpty then [] else ' ' :: row.body.map (Cell.shown chars), ?_,
    length_gutterText hfits, ?_, glyph_bar row.role, ?_, ?_⟩
  · rw [Row.text_inside chars width hinside, List.append_assoc, List.cons_append]
  · cases hnumber : row.role.number? with
    | none => exact .inl ⟨rfl, rfl⟩
    | some n => exact .inr ⟨n, _, rfl, rfl⟩
  · cases hbody : row.body with
    | nil => exact .inl rfl
    | cons cell cells => exact .inr ⟨_, by simp, rfl⟩
  · intro hcode hnote
    cases hbody : row.body with
    | nil =>
      have hbar : chars.glyph row.role.bar ≠ ' ' := ne_blank_of_glyph row.role.bar
      simpa using hbar
    | cons cell cells =>
      have hne := hlast hcode hnote
      rw [hbody] at hne
      simpa using hne

theorem Placement.Stands.isFramed {p : Placement} {d : Diagnostic} (h : p.Stands d row)
    (hnumber : ∀ n, row.role.number? = some n → n ∈ p.relevantLines.map (· + 1)) :
    ∃ gutter bar rest, row.IsFramed chars p.gutterWidth gutter bar rest := by
  apply Row.isFramed h.inside
  · intro n hn
    obtain ⟨line, hline, rfl⟩ := List.mem_map.mp (hnumber n hn)
    exact Placement.number_fits hline
  · intro hcode hnote
    cases h with
    | code => exact absurd rfl (hcode _)
    | bare _ _ drawn trimmed =>
      rw [← trimmed]
      exact last_shown_ne_blank fun cell hcell => .inl (drawn cell hcell)
    | message _ shown =>
      obtain ⟨lead, hlead, hbody⟩ := shown.body_eq
      rw [hbody]
      apply last_shown_ne_blank
      intro cell hcell
      rcases List.mem_append.mp hcell with hcell | hcell
      · exact .inl (hlead cell hcell)
      · obtain ⟨c, _, rfl⟩ := List.mem_map.mp hcell
        exact .inr ⟨c, rfl⟩
    | note _ drawn => exact absurd (noteRows_role drawn) (hnote _)

theorem Row.IsFramed.getElem?_bar {gutter rest : List Char} {bar : Char}
    (h : row.IsFramed chars width gutter bar rest) :
    (row.text chars false width)[width]? = some bar := by
  rw [h.text_eq, List.append_assoc, List.getElem?_append_right (by rw [h.width_eq]), h.width_eq,
    Nat.sub_self]
  rfl

end Framed

variable {catalog : Catalog} {d : Diagnostic} {text : String}

theorem exists_canvas_of_render (h : render catalog d = .ok text) (hlabels : d.labels ≠ []) :
    ∃ p, Canvas.ofDiagnostic catalog d = .ok ⟨d, some p⟩ := by
  obtain ⟨c, hcanvas, _⟩ := bind_eq_ok_iff.mp h
  obtain ⟨_, p, _, _, rfl⟩ := (Canvas.ofDiagnostic_eq_ok hlabels).mp hcanvas
  exact ⟨p, hcanvas⟩

/-- The text of a border, without the line feed that ends it. -/
def borderLine (chars : CharSet) (width : Nat) (id : SourceId) (locus : Locus) : List Char :=
  List.replicate width ' ' ++ chars.glyph .ltop :: chars.glyph .hbar :: chars.glyph .lbox ::
    (s!"{id.shown}:{locus.line}:{locus.column}".toList ++ [chars.glyph .rbox])

/-- The text of a footer, without the line feed that ends it. -/
def footerLine (chars : CharSet) (width : Nat) : List Char :=
  List.replicate width (chars.glyph .hbar) ++ [chars.glyph .rbot]

theorem borderRow_text (chars : CharSet) (width : Nat) (id : SourceId) (locus : Locus) :
    (borderRow id locus).text chars false width = borderLine chars width id locus ++ ['\n'] := by
  rw [Row.text_plain, borderRow, borderLine]
  simp only [Row.gutterShown, Row.bodyShown, Cell.plain, map_shown_ofText, gutterText, Role.number?,
    List.append_assoc, List.cons_append, List.nil_append]

theorem footer_text (chars : CharSet) (width : Nat) :
    Canvas.footer.text chars false width = footerLine chars width ++ ['\n'] := by
  rw [Row.text_plain, Canvas.footer, footerLine]
  rfl

theorem header_text (chars : CharSet) (width : Nat) (d : Diagnostic) :
    (Canvas.header ⟨d, none⟩).text chars false width =
      (Canvas.header ⟨d, none⟩).body.map (Cell.shown chars) ++ ['\n'] := by
  rw [Row.text_plain]
  rfl

namespace Placement

variable {p : Placement} {locus : Locus} {inner : List Row}

theorem Encloses.isFramed (h : p.Encloses d locus inner) (chars : CharSet) {row : Row}
    (hrow : row ∈ inner) : ∃ gutter bar rest, row.IsFramed chars p.gutterWidth gutter bar rest := by
  apply (h.stands row hrow).isFramed
  intro n hn
  rw [← h.numbers_eq]
  exact List.mem_filterMap.mpr ⟨row, hrow, hn⟩

theorem Encloses.text_eq (hinner : p.Encloses d locus inner) (h : render catalog d = .ok text)
    (hcanvas : Canvas.ofDiagnostic catalog d = .ok ⟨d, some p⟩) (hcolors : d.config.colors = false) :
    text = String.ofList ((Canvas.header ⟨d, none⟩).body.map (Cell.shown d.config.charSet) ++ ['\n'] ++
      (borderLine d.config.charSet p.gutterWidth d.sourceId locus ++ ['\n']) ++
      inner.flatMap (Row.text d.config.charSet false p.gutterWidth) ++
      (footerLine d.config.charSet p.gutterWidth ++ ['\n'])) := by
  have hok := render_of_rows_ok hcanvas hinner.rows_eq
  rw [Except.ok.inj (h.symm.trans hok), Canvas.text, rowsText, hcolors, List.flatMap_cons, List.flatMap_cons, List.flatMap_append,
    List.flatMap_singleton, borderRow_text, footer_text, header_text]
  simp only [List.append_assoc]
  rfl

end Placement

theorem getElem?_replicate_append (width : Nat) (filler c : Char) (rest : List Char) :
    (List.replicate width filler ++ c :: rest)[width]? = some c := by
  rw [List.getElem?_append_right (by simp), List.length_replicate, Nat.sub_self]
  rfl

/-- A report with labels and without colors is framed. Its text is that of its header, its border, the
rows inside and its footer. Every row inside has a gutter of one width and a bar, which stands in the
column of the corners of the border and the footer. The numbers in the gutters are those of the relevant
lines, ascending, from the one in the border on. -/
theorem framing_of_render (h : render catalog d = .ok text) (hlabels : d.labels ≠ [])
    (hcolors : d.config.colors = false) :
    let chars := d.config.charSet
    ∃ p locus inner, Canvas.ofDiagnostic catalog d = .ok ⟨d, some p⟩ ∧ p.locus = .ok locus ∧
      (⟨d, some p⟩ : Canvas).rows =
        .ok (Canvas.header ⟨d, none⟩ :: borderRow d.sourceId locus :: (inner ++ [Canvas.footer])) ∧
      text = String.ofList ((Canvas.header ⟨d, none⟩).body.map (Cell.shown chars) ++ ['\n'] ++
        (borderLine chars p.gutterWidth d.sourceId locus ++ ['\n']) ++
        inner.flatMap (Row.text chars false p.gutterWidth) ++
        (footerLine chars p.gutterWidth ++ ['\n'])) ∧
      (∀ row ∈ inner, ∃ gutter bar rest, row.IsFramed chars p.gutterWidth gutter bar rest) ∧
      (borderLine chars p.gutterWidth d.sourceId locus)[p.gutterWidth]? = some (chars.glyph .ltop) ∧
      (footerLine chars p.gutterWidth)[p.gutterWidth]? = some (chars.glyph .rbot) ∧
      (∀ row ∈ inner, (row.text chars false p.gutterWidth)[p.gutterWidth]? =
        some (chars.glyph row.role.bar)) ∧
      numbersOf inner = p.relevantLines.map (· + 1) ∧ (numbersOf inner).Pairwise (· < ·) ∧
      (numbersOf inner).head? = some locus.line := by
  intro chars
  obtain ⟨p, hcanvas⟩ := exists_canvas_of_render h hlabels
  obtain ⟨locus, inner, hinner⟩ := exists_encloses h hcanvas
  have hframed : ∀ row ∈ inner, ∃ gutter bar rest,
      row.IsFramed chars p.gutterWidth gutter bar rest := fun row hrow => hinner.isFramed chars hrow
  refine ⟨p, locus, inner, hcanvas, hinner.locus_eq, hinner.rows_eq,
    hinner.text_eq h hcanvas hcolors, hframed, getElem?_replicate_append _ _ _ _,
    getElem?_replicate_append _ _ _ _, ?_, hinner.numbers_eq, ?_, ?_⟩
  · intro row hrow
    obtain ⟨gutter, bar, rest, hrow⟩ := hframed row hrow
    rw [hrow.getElem?_bar, hrow.bar_eq, glyph_bar]
  · rw [hinner.numbers_eq, List.pairwise_map]
    exact p.relevantLines_increasing.imp fun hlt => Nat.add_lt_add_right hlt 1
  · rw [hinner.numbers_eq]
    exact Placement.locus_line hinner.locus_eq

theorem plain_crossing_rendered : ∃ text,
    render ⟨[(.name "letters", letters)]⟩ (crossing.withColors false) = .ok text := by
  have hsource : Catalog.find? ⟨[(.name "letters", letters)]⟩ (crossing.withColors false).sourceId =
    some letters := rfl
  have hfit : (crossing.withColors false).FitsIn letters := by decide
  obtain ⟨text, _, htext, _⟩ := exists_render_of_fitsIn (by decide) hsource hfit
  exact ⟨text, htext⟩

theorem framing_crossing : ∃ text p locus inner,
    render ⟨[(.name "letters", letters)]⟩ (crossing.withColors false) = .ok text ∧
      (⟨crossing.withColors false, some p⟩ : Canvas).rows = .ok (Canvas.header ⟨crossing, none⟩ ::
        borderRow crossing.sourceId locus :: (inner ++ [Canvas.footer])) ∧
      (∀ row ∈ inner, ∃ gutter bar rest, row.IsFramed .rounded p.gutterWidth gutter bar rest) ∧
      (numbersOf inner).head? = some locus.line := by
  obtain ⟨text, htext⟩ := plain_crossing_rendered
  obtain ⟨p, locus, inner, _, _, hrows, _, hframed, _, _, _, _, _, hfirst⟩ :=
    framing_of_render htext (by decide) rfl
  exact ⟨text, p, locus, inner, htext, hrows, hframed, hfirst⟩

end Callout

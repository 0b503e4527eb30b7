import Callout.Proofs.BlockRows
import Callout.Proofs.RenderOutcome

namespace Callout

/-- The labels whose messages some rows have, in the order of the rows. -/
def labelsOf (rows : List Row) : List Nat :=
  rows.filterMap fun row => row.role.label?

theorem labelsOf_eq_nil {rows : List Row} (h : ∀ row ∈ rows, row.role.label? = none) :
    labelsOf rows = [] := by
  rw [labelsOf, List.filterMap_eq_nil_iff]
  exact h

theorem labelsOf_append (rows more : List Row) :
    labelsOf (rows ++ more) = labelsOf rows ++ labelsOf more :=
  List.filterMap_append

namespace Placement

variable {p : Placement} {line : Nat}

theorem filterMap_label?_map {f : Nat → Role} (h : ∀ i, (f i).label? = some i)
    (labels : List Nat) : (labels.map f).filterMap Role.label? = labels := by
  induction labels with
  | nil => rfl
  | cons i labels ih => rw [List.map_cons, List.filterMap_cons_some (h i), ih]

theorem IsBlock.labelsOf_eq {rows : List Row} {messages closings : List Nat}
    (h : p.IsBlock line rows messages closings) : labelsOf rows = messages ++ closings := by
  have hroles : labelsOf rows = (rows.map Row.role).filterMap Role.label? := by
    rw [List.filterMap_map]
    rfl
  rw [hroles, h.roles_eq, List.filterMap_cons_none rfl, List.filterMap_append]
  congr 1
  · split
    next hnil => rw [hnil, List.filterMap_nil]
    next => rw [List.filterMap_cons_none rfl, filterMap_label?_map fun _ => rfl]
  · split
    next hnil => rw [hnil, List.filterMap_nil]
    next => rw [List.filterMap_cons_none rfl, filterMap_label?_map fun _ => rfl]

theorem IsBlock.line?_eq {rows : List Row} {messages closings : List Nat}
    (h : p.IsBlock line rows messages closings) {row : Row} (hrow : row ∈ rows) :
    row.role.line? = some line := by
  have hrole := List.mem_map_of_mem (f := Row.role) hrow
  rw [h.roles_eq, List.mem_cons, List.mem_append] at hrole
  rcases hrole with hrole | hrole | hrole
  · rw [hrole]
    rfl
  · split at hrole
    next => cases hrole
    next =>
      rcases List.mem_cons.mp hrole with hrole | hrole
      · rw [hrole]
        rfl
      · obtain ⟨i, _, hi⟩ := List.mem_map.mp hrole
        rw [← hi]
        rfl
  · split at hrole
    next => cases hrole
    next =>
      rcases List.mem_cons.mp hrole with hrole | hrole
      · rw [hrole]
        rfl
      · obtain ⟨i, _, hi⟩ := List.mem_map.mp hrole
        rw [← hi]
        rfl

theorem IsBlock.mem_labelsOf_iff {rows : List Row} {messages closings : List Nat}
    (h : p.IsBlock line rows messages closings) (i : Nat) :
    i ∈ labelsOf rows ↔ ∃ l, p.labels[i]? = some l ∧ l.endLine = line := by
  rw [h.labelsOf_eq, List.mem_append, h.mem_messages, h.mem_closings]
  constructor
  · rintro (⟨l, hl, hm, hs⟩ | ⟨l, hl, _, he⟩)
    · exact ⟨l, hl, (isMultiline_eq_false_iff.mp hm).symm.trans hs⟩
    · exact ⟨l, hl, he⟩
  · rintro ⟨l, hl, he⟩
    cases hm : l.isMultiline with
    | false => exact .inl ⟨l, hl, hm, (isMultiline_eq_false_iff.mp hm).trans he⟩
    | true => exact .inr ⟨l, hl, hm, he⟩

theorem IsBlock.labelsOf_nodup {rows : List Row} {messages closings : List Nat}
    (h : p.IsBlock line rows messages closings) : (labelsOf rows).Nodup := by
  rw [h.labelsOf_eq, List.nodup_append]
  refine ⟨?_, h.closings_order.imp fun hlt => Nat.ne_of_gt hlt, ?_⟩
  · refine h.messages_order.imp ?_
    rintro i j ⟨a, b, ha, hb, horder⟩ rfl
    obtain ⟨l, hl, ha⟩ := mem_touching_iff.mp ha
    obtain ⟨m, hm, hb⟩ := mem_touching_iff.mp hb
    cases hl.symm.trans hm
    cases ha.symm.trans hb
    omega
  · rintro i hi j hj rfl
    obtain ⟨l, hl, hm, _⟩ := (h.mem_messages i).mp hi
    obtain ⟨l', hl', hm', _⟩ := (h.mem_closings i).mp hj
    cases hl.symm.trans hl'
    rw [hm] at hm'
    cases hm'

/-- What is drawn for a line: rows that stand for lines left out, and the block of the line. -/
def HasBlock (p : Placement) (line : Nat) (chunk : List Row) : Prop :=
  ∃ gap block messages closings, chunk = gap ++ block ∧ (∀ row ∈ gap, row.IsBare .gap) ∧
    p.IsBlock line block messages closings

theorem IsChunk.hasBlock {config : Config} {chunk : List Row} (h : p.IsChunk config line chunk)
    (hline : line < p.source.lines.length) (haligned : p.AlignedOn line) :
    p.HasBlock line chunk := by
  obtain ⟨gap, b, rfl, hgap⟩ := h
  obtain ⟨messages, closings, hblock⟩ := b.isBlock hline haligned
  refine ⟨gap, b.rows, messages, closings, rfl, ?_, hblock⟩
  rcases hgap with rfl | ⟨row, rfl, _, hbare⟩
  · simp
  · simp [hbare]

theorem HasBlock.labelsOf_eq {chunk : List Row} (h : p.HasBlock line chunk) :
    (labelsOf chunk).Nodup ∧
      ∀ i, i ∈ labelsOf chunk ↔ ∃ l, p.labels[i]? = some l ∧ l.endLine = line := by
  obtain ⟨gap, block, messages, closings, rfl, hgap, hblock⟩ := h
  rw [labelsOf_append, labelsOf_eq_nil fun row hrow => by rw [(hgap row hrow).role_eq]; rfl,
    List.nil_append]
  exact ⟨hblock.labelsOf_nodup, hblock.mem_labelsOf_iff⟩

/-- Over several lines no label is met twice, for every label is read on one line only. -/
theorem labelsOf_chunks {lines : List Nat} {chunks : List (List Row)} (hlines : lines.Nodup)
    (h : List.Forall₂ p.HasBlock lines chunks) : (labelsOf chunks.flatten).Nodup ∧
      ∀ i, i ∈ labelsOf chunks.flatten ↔ ∃ l, p.labels[i]? = some l ∧ l.endLine ∈ lines := by
  induction h with
  | nil => simp [labelsOf]
  | @cons line chunk lines chunks hblock _ ih =>
    obtain ⟨hline, hlines⟩ := List.nodup_cons.mp hlines
    obtain ⟨hnodup, hmem⟩ := hblock.labelsOf_eq
    obtain ⟨hrestNodup, hrest⟩ := ih hlines
    rw [List.flatten_cons, labelsOf_append, List.nodup_append]
    refine ⟨⟨hnodup, hrestNodup, ?_⟩, ?_⟩
    · rintro i hi j hj rfl
      obtain ⟨l, hl, he⟩ := (hmem i).mp hi
      obtain ⟨l', hl', he'⟩ := (hrest i).mp hj
      cases hl.symm.trans hl'
      exact hline (he ▸ he')
    · intro i
      rw [List.mem_append, hmem, hrest]
      constructor
      · rintro (⟨l, hl, he⟩ | ⟨l, hl, he⟩)
        · exact ⟨l, hl, by simp [he]⟩
        · exact ⟨l, hl, List.mem_cons_of_mem _ he⟩
      · rintro ⟨l, hl, he⟩
        rcases List.mem_cons.mp he with he | he
        · exact .inl ⟨l, hl, he⟩
        · exact .inr ⟨l, hl, he⟩

theorem HasBlock.line?_of_mem {chunk : List Row} (h : p.HasBlock line chunk) {row : Row}
    (hrow : row ∈ chunk) : row.role.line? = none ∨ row.role.line? = some line := by
  obtain ⟨gap, block, messages, closings, rfl, hgap, hblock⟩ := h
  rcases List.mem_append.mp hrow with hrow | hrow
  · rw [(hgap row hrow).role_eq]
    exact .inl rfl
  · exact .inr (hblock.line?_eq hrow)

/-- The rows of a line stand together, apart from those of all other lines. -/
theorem exists_block_of_mem {lines : List Nat} {chunks : List (List Row)} (hlines : lines.Nodup)
    (h : List.Forall₂ p.HasBlock lines chunks) (hline : line ∈ lines) :
    ∃ front block back messages closings, chunks.flatten = front ++ block ++ back ∧
      p.IsBlock line block messages closings ∧
      ∀ row ∈ front ++ back, row.role.line? ≠ some line := by
  induction h with
  | nil => cases hline
  | @cons first chunk lines chunks hblock hrest ih =>
    obtain ⟨hfirst, hlines⟩ := List.nodup_cons.mp hlines
    have hlater : ∀ row ∈ chunks.flatten, row.role.line? = none ∨
        ∃ later ∈ lines, row.role.line? = some later := by
      intro row hrow
      obtain ⟨chunk', hchunk', hrow⟩ := List.mem_flatten.mp hrow
      obtain ⟨later, hlater, hblock'⟩ := forall₂_mem_right hrest hchunk'
      rcases hblock'.line?_of_mem hrow with hnone | hsome
      · exact .inl hnone
      · exact .inr ⟨later, hlater, hsome⟩
    rcases List.mem_cons.mp hline with rfl | hline
    · obtain ⟨gap, block, messages, closings, rfl, hgap, hblock⟩ := hblock
      refine ⟨gap, block, chunks.flatten, messages, closings, rfl, hblock, ?_⟩
      intro row hrow
      rcases List.mem_append.mp hrow with hrow | hrow
      · rw [(hgap row hrow).role_eq]
        exact fun heq => by cases heq
      · rcases hlater row hrow with hnone | ⟨later, hmem, hsome⟩
        · simp [hnone]
        · rw [hsome, ne_eq, Option.some_inj]
          rintro rfl
          exact hfirst hmem
    · obtain ⟨front, block, back, messages, closings, heq, hblock', hapart⟩ := ih hlines hline
      refine ⟨chunk ++ front, block, back, messages, closings, ?_, hblock', ?_⟩
      · rw [List.flatten_cons, heq]
        simp only [List.append_assoc]
      · intro row hrow
        rw [List.append_assoc] at hrow
        rcases List.mem_append.mp hrow with hrow | hrow
        · rcases hblock.line?_of_mem hrow with hnone | hsome
          · simp [hnone]
          · rw [hsome, ne_eq, Option.some_inj]
            rintro rfl
            exact hfirst hline
        · exact hapart row hrow

theorem exists_lineBlock_of_chunk {config : Config} {k : Nat} {chunk : List Row} {row : Row}
    (hk : k < p.source.lines.length) (haligned : p.AlignedOn k) (hchunk : p.IsChunk config k chunk)
    (hrow : row ∈ chunk) (hrole : row.role.line? = some line) :
    ∃ b : LineBlock p config line, row ∈ b.rows := by
  rcases hchunk.mem_cases hrow with hgap | ⟨b, hb⟩
  · rw [hgap.role_eq] at hrole
    cases hrole
  · obtain ⟨messages, closings, hblock⟩ := b.isBlock hk haligned
    cases (hblock.line?_eq hb).symm.trans hrole
    exact ⟨b, hb⟩

theorem HasBlock.shown {chunk : List Row} (h : p.HasBlock line chunk) {row : Row}
    (hrow : row ∈ chunk) : (∀ i, row.role.label? = some i → p.ShowsLabel i row) ∧
      (row.role.label? = none → ∀ c ∈ row.body, c.color = none → c = .blank) := by
  obtain ⟨gap, block, messages, closings, rfl, hgap, hblock⟩ := h
  rcases List.mem_append.mp hrow with hrow | hrow
  · obtain ⟨hrole, hframe⟩ := hgap row hrow
    refine ⟨fun i hi => ?_, fun _ c hc hcolor => blank_of_isFrame (hframe c hc) hcolor⟩
    rw [hrole] at hi
    cases hi
  · exact ⟨hblock.shown row hrow, hblock.bare row hrow⟩

end Placement

theorem noteRows_role {role : Role} {lead : List Char} {note : Note} {row : Row}
    (h : row ∈ noteRows role lead note) : row.role = role := by
  unfold noteRows at h
  split at h
  next => cases h
  next first rest _ =>
    rcases List.mem_cons.mp h with rfl | h
    · rfl
    · obtain ⟨part, _, rfl⟩ := List.mem_map.mp h
      rfl

/-- Rows above and below the lines belong to no line and to no label. -/
theorem Canvas.outer_rows {c : Canvas} {border row : Row} (hborder : border.role = .border)
    (h : row ∈ [c.header, border] ∨ row ∈ [emptyRow] ++ c.notes ++ [footer]) :
    row.role.line? = none ∧ row.role.label? = none ∧ row.role ≠ .gap := by
  have hroles : row.role = .header ∨ row.role = .border ∨ row.role = .empty ∨
      row.role = .footer ∨ ∃ i, row.role = .note i := by
    rcases h with h | h
    · rcases List.mem_cons.mp h with rfl | h
      · exact .inl rfl
      · rw [List.mem_singleton.mp h]
        exact .inr (.inl hborder)
    · rw [List.mem_append, List.mem_append, List.mem_singleton, List.mem_singleton] at h
      rcases h with (rfl | h) | rfl
      · exact .inr (.inr (.inl rfl))
      · obtain ⟨⟨note, i⟩, _, hrow⟩ := List.mem_flatMap.mp h
        exact .inr (.inr (.inr (.inr ⟨i, noteRows_role hrow⟩)))
      · exact .inr (.inr (.inr (.inl rfl)))
  rcases hroles with hr | hr | hr | hr | ⟨i, hr⟩ <;> rw [hr] <;> exact ⟨rfl, rfl, by simp⟩

/-- Rows in which every label of a list is met once have one row for each of them. -/
theorem exists_unique_row {rows : List Row} {i : Nat} (hnodup : (labelsOf rows).Nodup)
    (hi : i ∈ labelsOf rows) : ∃ row, rows.filter (fun r => r.role.label? == some i) = [row] := by
  have hcount := List.count_eq_one_of_mem hnodup hi
  rw [labelsOf, List.count_filterMap, List.countP_eq_length_filter] at hcount
  exact List.length_eq_one_iff.mp hcount

theorem mem_report_rows {R : Nat → List Row → Prop} {lines : List Nat} {chunks : List (List Row)}
    {above below : List Row} {row : Row} (h : List.Forall₂ R lines chunks)
    (hrow : row ∈ above ++ chunks.flatten ++ below) :
    (row ∈ above ∨ row ∈ below) ∨ ∃ line chunk, row ∈ chunk ∧ R line chunk := by
  rw [List.append_assoc, List.mem_append, List.mem_append] at hrow
  rcases hrow with hrow | hrow | hrow
  · exact .inl (.inl hrow)
  · obtain ⟨chunk, hchunk, hrow⟩ := List.mem_flatten.mp hrow
    obtain ⟨line, _, hR⟩ := forall₂_mem_right h hchunk
    exact .inr ⟨line, chunk, hrow, hR⟩
  · exact .inl (.inr hrow)

/-- A report with aligned labels consists of the chunks of its lines and of rows above and below. -/
theorem Canvas.report_rows (d : Diagnostic) {p : Placement} (hne : p.labels ≠ [])
    (h : p.Aligned) : ∃ above chunks below,
      (⟨d, some p⟩ : Canvas).rows = .ok (above ++ chunks.flatten ++ below) ∧
      List.Forall₂ (fun line chunk => (line < p.source.lines.length ∧ p.AlignedOn line) ∧
        p.IsChunk d.config line chunk) p.relevantLines chunks ∧
      ∀ row, row ∈ above ∨ row ∈ below →
        row.role.line? = none ∧ row.role.label? = none ∧ row.role ≠ .gap := by
  obtain ⟨border, chunks, hrows, hborder, hchunks⟩ := Canvas.rows_of_aligned d hne h
  refine ⟨[Canvas.header ⟨d, some p⟩, border], chunks,
    [Canvas.emptyRow] ++ Canvas.notes ⟨d, some p⟩ ++ [Canvas.footer], ?_, ?_, ?_⟩
  · rw [hrows]
    simp only [List.append_assoc]
  · refine (List.forall₂_and_left _ _).mpr ⟨fun line hline => ?_, hchunks⟩
    exact ⟨Placement.lt_length_of_mem_relevantLines hline, Placement.aligned_iff.mp h line hline⟩
  · exact fun row hrow => Canvas.outer_rows hborder hrow

theorem exists_block_of_report {p : Placement} {above below : List Row} {chunks : List (List Row)}
    (hblocks : List.Forall₂ p.HasBlock p.relevantLines chunks)
    (houter : ∀ row, row ∈ above ∨ row ∈ below →
      row.role.line? = none ∧ row.role.label? = none ∧ row.role ≠ .gap)
    {line : Nat} (hline : line ∈ p.relevantLines) :
    ∃ front block back messages closings,
      above ++ chunks.flatten ++ below = front ++ block ++ back ∧
      p.IsBlock line block messages closings ∧
      ∀ row ∈ front ++ back, row.role.line? ≠ some line := by
  obtain ⟨front, block, back, messages, closings, hsplit, hblock, hapart⟩ :=
    Placement.exists_block_of_mem (p.relevantLines_increasing.imp fun hlt => Nat.ne_of_lt hlt)
      hblocks hline
  refine ⟨above ++ front, block, back ++ below, messages, closings, ?_, hblock, ?_⟩
  · rw [hsplit]
    simp only [List.append_assoc]
  · intro row hrow
    have hplace : (row ∈ above ∨ row ∈ below) ∨ row ∈ front ++ back := by
      simp only [List.mem_append] at hrow ⊢
      tauto
    rcases hplace with hout | hin
    · rw [(houter row hout).1]
      exact fun heq => by cases heq
    · exact hapart row hin

theorem labelsOf_relevantLines {p : Placement} {chunks : List (List Row)}
    (h : List.Forall₂ p.HasBlock p.relevantLines chunks) :
    (labelsOf chunks.flatten).Perm (List.range p.labels.length) := by
  obtain ⟨hnodup, hmem⟩ := Placement.labelsOf_chunks
    (p.relevantLines_increasing.imp fun hlt => Nat.ne_of_lt hlt) h
  refine (List.perm_ext_iff_of_nodup hnodup List.nodup_range).mpr fun i => ?_
  rw [hmem, List.mem_range]
  constructor
  · rintro ⟨l, hl, _⟩
    exact (List.getElem?_eq_some_iff.mp hl).1
  · intro hi
    have hl := List.getElem?_eq_getElem hi
    exact ⟨_, hl, Placement.mem_relevantLines_iff.mpr ⟨_, List.mem_of_getElem? hl, .inr rfl⟩⟩

variable {catalog : Catalog} {d : Diagnostic} {text : String} {p : Placement}

/-- Every label has its message in exactly one row of a report, and in the block of every line the
messages of the labels that lie on it come from the last end to the first, then those of the labels
of several lines that end there, from the last start to the first. -/
theorem messages_of_render (h : render catalog d = .ok text)
    (hcanvas : Canvas.ofDiagnostic catalog d = .ok ⟨d, some p⟩) :
    p.labels.map Placed.label = sortLabels d.labels ∧
    ∃ rows, (⟨d, some p⟩ : Canvas).rows = .ok rows ∧
      text = String.ofList ((⟨d, some p⟩ : Canvas).text rows) ∧
      (∀ i < p.labels.length, ∃ row, rows.filter (fun r => r.role.label? == some i) = [row]) ∧
      (∀ row ∈ rows, ∀ i, row.role.label? = some i → p.ShowsLabel i row) ∧
      (∀ row ∈ rows, row.role.line?.isSome ∨ row.role = .gap → row.role.label? = none →
        ∀ c ∈ row.body, c.color = none → c = .blank) ∧
      (rows.countP fun row => row.role.label?.isSome) = d.labels.length ∧
      ∀ line ∈ p.relevantLines, ∃ front block back messages closings,
        rows = front ++ block ++ back ∧ p.IsBlock line block messages closings ∧
        ∀ row ∈ front ++ back, row.role.line? ≠ some line := by
  obtain ⟨hne, haligned, hlabels⟩ := placement_of_render h hcanvas
  obtain ⟨above, chunks, below, hrows, hchunks, houter⟩ := Canvas.report_rows d hne haligned
  have hblocks : List.Forall₂ p.HasBlock p.relevantLines chunks :=
    hchunks.imp fun line chunk ⟨hline, hchunk⟩ => hchunk.hasBlock hline.1 hline.2
  have hperm : (labelsOf (above ++ chunks.flatten ++ below)).Perm
      (List.range p.labels.length) := by
    rw [labelsOf_append, labelsOf_append, labelsOf_eq_nil fun row hrow => (houter row (.inl hrow)).2.1,
      labelsOf_eq_nil fun row hrow => (houter row (.inr hrow)).2.1, List.nil_append, List.append_nil]
    exact labelsOf_relevantLines hblocks
  refine ⟨hlabels, above ++ chunks.flatten ++ below, hrows, ?_, ?_, ?_, ?_, ?_, ?_⟩
  · rw [render, hcanvas] at h
    simp only [bind, Except.bind, hrows, pure, Except.pure, Except.ok.injEq] at h
    exact h.symm
  · intro i hi
    exact exists_unique_row (hperm.nodup_iff.mpr List.nodup_range)
      (hperm.mem_iff.mpr (List.mem_range.mpr hi))
  · intro row hrow i hi
    rcases mem_report_rows hblocks hrow with hout | ⟨line, chunk, hchunk, hblock⟩
    · rw [(houter row hout).2.1] at hi
      cases hi
    · exact (hblock.shown hchunk).1 i hi
  · intro row hrow hcontent
    rcases mem_report_rows hblocks hrow with hout | ⟨line, chunk, hchunk, hblock⟩
    · obtain ⟨hline, _, hgap⟩ := houter row hout
      rw [hline] at hcontent
      rcases hcontent with hsome | heq
      · cases hsome
      · exact absurd heq hgap
    · exact (hblock.shown hchunk).2
  · have hlength : p.labels.length = d.labels.length := by
      have := congrArg List.length hlabels
      rwa [List.length_map, sortLabels, List.length_mergeSort] at this
    rw [← hlength, ← List.length_filterMap_eq_countP]
    exact hperm.length_eq.trans List.length_range
  · exact fun line hline => exists_block_of_report hblocks houter hline

theorem messages_crossing : ∃ p rows,
    Canvas.ofDiagnostic ⟨[(.name "letters", letters)]⟩ crossing = .ok ⟨crossing, some p⟩ ∧
      (⟨crossing, some p⟩ : Canvas).rows = .ok rows ∧
      (rows.countP fun row => row.role.label?.isSome) = 3 := by
  obtain ⟨text, p, htext, hcanvas⟩ := crossing_rendered
  obtain ⟨_, rows, hrows, _, _, _, _, hcount, _⟩ := messages_of_render htext hcanvas
  exact ⟨p, rows, hcanvas, hrows, hcount⟩

end Callout

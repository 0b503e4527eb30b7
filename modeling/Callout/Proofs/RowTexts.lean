import Callout.Proofs.ConnectorRows
import Callout.Proofs.MessageRows
import Callout.Proofs.ShiftedReport

namespace Callout

/-- Whether rows of a role stand behind the gutter and a bar. -/
def Role.isInside : Role → Bool
  | .header | .border | .bareNote _ | .footer => false
  | _ => true

theorem Role.number?_eq_none {role : Role} (h : ∀ line, role ≠ .code line) : role.number? = none := by
  cases role with
  | code line => exact absurd rfl (h line)
  | _ => rfl

theorem trimBlanks_trimBlanks (cells : List Cell) : trimBlanks (trimBlanks cells) = trimBlanks cells :=
  List.rdropWhile_idempotent (· == Cell.blank) cells

theorem Row.Leads.trimmed {row : Row} {width : Nat} {cell : Nat → Cell} (h : row.Leads width cell) :
    trimBlanks row.body = row.body := by
  obtain ⟨rest, hbody⟩ := h
  rw [hbody, trimBlanks_trimBlanks]

/-- A row of an unnumbered role in which a text stands behind drawn cells. -/
structure Row.IsMessage (row : Row) (message : String) : Prop where
  inside : row.role.isInside = true
  number_eq : row.role.number? = none
  body_eq : ∃ lead, (∀ c ∈ lead, Cell.IsFrame c) ∧ row.body = trimBlanks (lead ++ Cell.plain message)

theorem Row.Shows.isMessage {row : Row} {role : Role} {message : String} (h : row.Shows role message)
    (inside : role.isInside = true) (number_eq : role.number? = none) : row.IsMessage message := by
  refine ⟨?_, ?_, h.body_eq⟩
  · rw [h.role_eq]
    exact inside
  · rw [h.role_eq]
    exact number_eq

/-- The numbers in the gutters of some rows. -/
def numbersOf (rows : List Row) : List Nat :=
  rows.filterMap fun row => row.role.number?

theorem numbersOf_append (rows more : List Row) :
    numbersOf (rows ++ more) = numbersOf rows ++ numbersOf more :=
  List.filterMap_append

theorem numbersOf_eq_nil {rows : List Row} (h : ∀ row ∈ rows, row.role.number? = none) :
    numbersOf rows = [] := by
  rw [numbersOf, List.filterMap_eq_nil_iff]
  exact h

namespace Placement

/-- What a row between the border and the footer of a report is made of. -/
inductive Stands (p : Placement) (d : Diagnostic) : Row → Prop where
  | code {line : Nat} {lead : List Cell} {fragments : List Fragment} (relevant : line ∈ p.relevantLines)
    (drawn : ∀ c ∈ lead, Cell.IsFrame c) (cut : p.fragments line = .ok fragments) :
    Stands p d ⟨.code line, trimBlanks (lead ++ codeCells fragments)⟩
  | bare {row : Row} (inside : row.role.isInside = true) (number_eq : row.role.number? = none)
    (drawn : ∀ c ∈ row.body, Cell.IsFrame c) (trimmed : trimBlanks row.body = row.body) :
    Stands p d row
  | message {row : Row} {label : Label} (given : label ∈ d.labels)
    (shown : row.IsMessage label.message) : Stands p d row
  | note {row : Row} {note : Note} {index : Nat} (given : note ∈ d.notes)
    (drawn : row ∈ noteRows (.note index) [] note) : Stands p d row

theorem Stands.inside {p : Placement} {d : Diagnostic} {row : Row} (h : p.Stands d row) :
    row.role.isInside = true := by
  cases h with
  | code => rfl
  | bare inside => exact inside
  | message _ shown => exact shown.inside
  | note _ drawn =>
    rw [noteRows_role drawn]
    rfl

variable {p : Placement} {d : Diagnostic} {config : Config} {line : Nat}

theorem label_mem (hlabels : p.labels.map Placed.label = sortLabels d.labels) {i : Nat} {l : Placed}
    (hl : p.labels[i]? = some l) : l.label ∈ d.labels := by
  rw [← mem_sortLabels, ← hlabels]
  exact List.mem_map_of_mem (List.mem_of_getElem? hl)

theorem ShowsLabel.isMessage {i : Nat} {row : Row} (h : p.ShowsLabel i row) :
    ∃ l, p.labels[i]? = some l ∧ row.IsMessage l.label.message := by
  obtain ⟨l, hl, hshows⟩ := h
  refine ⟨l, hl, ?_⟩
  cases hm : l.isMultiline with
  | true =>
    rw [hm, if_pos rfl] at hshows
    exact Row.Shows.isMessage hshows rfl rfl
  | false =>
    rw [hm, if_neg (by simp)] at hshows
    exact Row.Shows.isMessage hshows rfl rfl

theorem ShowsLabel.stands (hlabels : p.labels.map Placed.label = sortLabels d.labels) {i : Nat}
    {row : Row} (h : p.ShowsLabel i row) : p.Stands d row := by
  obtain ⟨l, hl, hmessage⟩ := h.isMessage
  exact .message (label_mem hlabels hl) hmessage

theorem stands_of_isBare {role : Role} {row : Row} (h : row.IsBare role)
    (inside : role.isInside = true) (number_eq : role.number? = none)
    (trimmed : trimBlanks row.body = row.body) : p.Stands d row := by
  apply Stands.bare
  · rw [h.role_eq]
    exact inside
  · rw [h.role_eq]
    exact number_eq
  · exact h.frame
  · exact trimmed

theorem LineBlock.stands (b : LineBlock p config line)
    (hlabels : p.labels.map Placed.label = sortLabels d.labels) (hline : line ∈ p.relevantLines)
    (haligned : p.AlignedOn line) {row : Row} (hrow : row ∈ b.rows) : p.Stands d row := by
  have hlength := lt_length_of_mem_relevantLines hline
  rcases List.mem_cons.mp hrow with rfl | hrow
  · exact .code hline b.lead_frame b.fragments_eq
  rcases List.mem_append.mp hrow with hrow | hrow
  · obtain ⟨_, _, hleads⟩ := b.pointers_lead hrow
    rcases List.mem_append.mp hrow with hrow | hrow
    · rcases (b.pointers_shown hlength haligned).2 row hrow with hbare | ⟨i, _, _, hshows⟩
      · exact stands_of_isBare hbare rfl rfl hleads.trimmed
      · exact hshows.stands hlabels
    · have hbare := b.spacer_shown.2 row hrow
      exact stands_of_isBare hbare rfl rfl hleads.trimmed
  · obtain ⟨i, _, hshows⟩ := b.closing_shown.2 row hrow
    exact hshows.stands hlabels

theorem IsChunk.stands {chunk : List Row} (h : p.IsChunk config line chunk)
    (hlabels : p.labels.map Placed.label = sortLabels d.labels) (hline : line ∈ p.relevantLines)
    (haligned : p.AlignedOn line) {row : Row} (hrow : row ∈ chunk) : p.Stands d row := by
  obtain ⟨gap, b, rfl, hgap⟩ := h
  rcases List.mem_append.mp hrow with hrow | hrow
  · rcases hgap with rfl | ⟨gapRow, rfl, hok, hbare⟩
    · cases hrow
    · rw [List.mem_singleton.mp hrow]
      exact stands_of_isBare hbare rfl rfl (gapRow_leads hok).2.trimmed
  · exact b.stands hlabels hline haligned hrow

theorem LineBlock.numbersOf_eq (b : LineBlock p config line) : numbersOf b.rows = [line + 1] := by
  have hrest : ∀ row ∈ b.pointers ++ b.spacer ++ b.closing, row.role.number? = none := by
    intro row hrow
    rcases List.mem_append.mp hrow with hrow | hrow
    · exact Role.number?_eq_none (b.pointers_lead hrow).1
    · obtain ⟨e, _, hrole, _⟩ := b.closing_leads hrow
      rw [hrole]
      rfl
  have hcode : numbersOf b.rows =
    (line + 1) :: numbersOf (b.pointers ++ b.spacer ++ b.closing) := rfl
  rw [hcode, numbersOf_eq_nil hrest]

theorem IsChunk.numbersOf_eq {chunk : List Row} (h : p.IsChunk config line chunk) :
    numbersOf chunk = [line + 1] := by
  obtain ⟨gap, b, rfl, hgap⟩ := h
  have hnone : numbersOf gap = [] := by
    apply numbersOf_eq_nil
    intro row hrow
    rcases hgap with rfl | ⟨gapRow, rfl, _, hbare⟩
    · cases hrow
    · rw [List.mem_singleton.mp hrow, hbare.role_eq]
      rfl
  rw [numbersOf_append, hnone, b.numbersOf_eq, List.nil_append]

theorem numbersOf_chunks {lines : List Nat} {chunks : List (List Row)}
    (h : List.Forall₂ (p.IsChunk config) lines chunks) :
    numbersOf chunks.flatten = lines.map (· + 1) := by
  induction h with
  | nil => rfl
  | cons hchunk _ ih =>
    rw [List.flatten_cons, numbersOf_append, hchunk.numbersOf_eq, ih]
    rfl

/-- The rows of a report between its border and its footer. -/
structure Encloses (p : Placement) (d : Diagnostic) (locus : Locus) (inner : List Row) : Prop where
  locus_eq : p.locus = .ok locus
  rows_eq : (⟨d, some p⟩ : Canvas).rows =
    .ok (Canvas.header ⟨d, none⟩ :: borderRow d.sourceId locus :: (inner ++ [Canvas.footer]))
  stands : ∀ row ∈ inner, p.Stands d row
  numbers_eq : numbersOf inner = p.relevantLines.map (· + 1)
  messages : ∀ label ∈ d.labels, ∃ row ∈ inner, row.IsMessage label.message

theorem exists_locus (hne : p.labels ≠ []) (haligned : p.Aligned) : ∃ locus, p.locus = .ok locus := by
  obtain ⟨first, rest, hfirst⟩ := List.exists_cons_of_ne_nil hne
  have hmem : first ∈ p.labels := by simp [hfirst]
  obtain ⟨locus, hlocus⟩ := locus_of_isBoundary hmem (haligned first hmem).1
  exact ⟨locus, by rw [Placement.locus, hfirst]; exact hlocus⟩

end Placement

variable {catalog : Catalog} {d : Diagnostic} {p : Placement} {text : String}

theorem noteRows_stand {row : Row} (h : row ∈ Canvas.notes ⟨d, none⟩) : p.Stands d row := by
  obtain ⟨⟨note, i⟩, hnote, hrow⟩ := List.mem_flatMap.mp h
  exact .note (List.fst_mem_of_mem_zipIdx hnote) hrow

theorem notes_unnumbered :
    ∀ row ∈ Canvas.emptyRow :: Canvas.notes ⟨d, none⟩, row.role.number? = none := by
  intro row hrow
  rcases List.mem_cons.mp hrow with rfl | hrow
  · rfl
  · obtain ⟨_, _, hrow⟩ := List.mem_flatMap.mp hrow
    rw [noteRows_role hrow]
    rfl

/-- A report is its frame around the chunks of its relevant lines. -/
theorem exists_frame (h : render catalog d = .ok text)
    (hcanvas : Canvas.ofDiagnostic catalog d = .ok ⟨d, some p⟩) :
    ∃ locus chunks, p.locus = .ok locus ∧ (p.content d.config []).rows = .ok chunks.flatten ∧
      (⟨d, some p⟩ : Canvas).rows =
        .ok (Canvas.frame d (borderRow d.sourceId locus) chunks.flatten) ∧
      List.Forall₂ (p.IsChunk d.config) p.relevantLines chunks := by
  obtain ⟨hne, haligned, _⟩ := placement_of_render h hcanvas
  obtain ⟨locus, hlocus⟩ := Placement.exists_locus hne haligned
  obtain ⟨chunks, hchunks, hall⟩ := Placement.blocks_of_alignedOn d.config none
    (show p.relevantLines = [] ++ p.relevantLines ++ [] by simp) (Placement.aligned_iff.mp haligned)
  rw [List.append_nil, Placement.reached_relevantLines] at hchunks
  have hcontent : (p.content d.config []).rows = .ok chunks.flatten := congrArg Drawn.rows hchunks
  refine ⟨locus, chunks, hlocus, hcontent, ?_, hall⟩
  rw [Canvas.rows_eq_frame, hlocus, hcontent]
  rfl

theorem exists_encloses (h : render catalog d = .ok text)
    (hcanvas : Canvas.ofDiagnostic catalog d = .ok ⟨d, some p⟩) :
    ∃ locus inner, p.Encloses d locus inner := by
  obtain ⟨_, haligned, hlabels⟩ := placement_of_render h hcanvas
  have halignedOn := Placement.aligned_iff.mp haligned
  obtain ⟨locus, chunks, hlocus, _, hrows, hall⟩ := exists_frame h hcanvas
  have hblocks : List.Forall₂ p.HasBlock p.relevantLines chunks := by
    refine ((List.forall₂_and_left _ _).mpr ⟨fun line hline => hline, hall⟩).imp ?_
    rintro line chunk ⟨hline, hchunk⟩
    exact hchunk.hasBlock (Placement.lt_length_of_mem_relevantLines hline) (halignedOn line hline)
  refine ⟨locus, chunks.flatten ++ Canvas.emptyRow :: Canvas.notes ⟨d, none⟩, hlocus, ?_, ?_, ?_, ?_⟩
  · rw [hrows]
    simp [Canvas.frame]
  · intro row hrow
    rcases List.mem_append.mp hrow with hrow | hrow
    · obtain ⟨chunk, hchunk, hrow⟩ := List.mem_flatten.mp hrow
      obtain ⟨line, hline, hchunk⟩ := forall₂_mem_right hall hchunk
      exact hchunk.stands hlabels hline (halignedOn line hline) hrow
    · rcases List.mem_cons.mp hrow with rfl | hrow
      · exact .bare rfl rfl (by simp [Canvas.emptyRow]) rfl
      · exact noteRows_stand hrow
  · rw [numbersOf_append, Placement.numbersOf_chunks hall, numbersOf_eq_nil notes_unnumbered,
      List.append_nil]
  · intro label hlabel
    rw [← Placement.mem_sortLabels, ← hlabels] at hlabel
    obtain ⟨l, hl, rfl⟩ := List.mem_map.mp hlabel
    obtain ⟨i, hi⟩ := List.mem_iff_getElem?.mp hl
    have hmem : i ∈ labelsOf chunks.flatten := by
      rw [(labelsOf_relevantLines hblocks).mem_iff, List.mem_range]
      exact (List.getElem?_eq_some_iff.mp hi).1
    obtain ⟨row, hrow, hrole⟩ := List.mem_filterMap.mp hmem
    refine ⟨row, List.mem_append_left _ hrow, ?_⟩
    obtain ⟨chunk, hchunk, hrow⟩ := List.mem_flatten.mp hrow
    obtain ⟨line, _, hblock⟩ := forall₂_mem_right hblocks hchunk
    obtain ⟨m, hm, hmessage⟩ := ((hblock.shown hrow).1 i hrole).isMessage
    cases hi.symm.trans hm
    exact hmessage

end Callout

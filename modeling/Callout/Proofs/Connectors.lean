import Callout.Proofs.ConnectorRows
import Callout.Proofs.MessageRows
import Callout.Proofs.OpenThroughRender

namespace Callout

theorem forall₂_append_left {α β : Type} {R : α → β → Prop} {front back : List α} {ys : List β}
    (h : List.Forall₂ R (front ++ back) ys) :
    ∃ ys₁ ys₂, ys = ys₁ ++ ys₂ ∧ List.Forall₂ R front ys₁ ∧ List.Forall₂ R back ys₂ := by
  have hflip := h.flip
  exact ⟨ys.take front.length, ys.drop front.length, (List.take_append_drop _ _).symm,
    (List.forall₂_take_append _ _ _ hflip).flip, (List.forall₂_drop_append _ _ _ hflip).flip⟩

namespace Placement

variable {p : Placement} {config : Config} {line i : Nat} {l : Placed}

/-- The connector of a label passes a row. On the last line of the label it is joined to the code. -/
def Passes (p : Placement) (i : Nat) (l : Placed) (row : Row) : Prop :=
  if row.role = .code l.endLine then
    row.body[2 * p.slotOf i]? = some (.drawn .lcross l.label.color)
  else Carries row.body (2 * p.slotOf i) l.label.color

theorem passes_of_carries {row : Row} (hrole : row.role ≠ .code l.endLine)
    (h : Carries row.body (2 * p.slotOf i) l.label.color) : p.Passes i l row := by
  rwa [Passes, if_neg hrole]

/-- The connector of a label comes from above, passes rows, the code of the last line among them, and
ends at the message of the label. -/
structure EndsIn (p : Placement) (i : Nat) (l : Placed) (front : List Row) (last : Row) : Prop where
  passes : ∀ row ∈ front, p.Passes i l row
  code : ∃ row ∈ front, row.role = .code l.endLine
  role_eq : last.role = .closing l.endLine i
  corner : last.body[2 * p.slotOf i]? = some (.drawn .lbot l.label.color)

/-- The connector of a label of several lines through some rows: it begins at the code of the first
line and passes all rows down to the message. -/
def HasConnector (p : Placement) (i : Nat) (l : Placed) (rows : List Row) : Prop :=
  ∃ above first between last below, rows = above ++ first :: (between ++ last :: below) ∧
    first.role = .code l.startLine ∧
    first.body[2 * p.slotOf i]? = some (.drawn .ltop l.label.color) ∧
    p.EndsIn i l between last

theorem EndsIn.prepend {front more : List Row} {last : Row} (h : p.EndsIn i l front last)
    (hmore : ∀ row ∈ more, p.Passes i l row) : p.EndsIn i l (more ++ front) last := by
  obtain ⟨row, hrow, hrole⟩ := h.code
  refine ⟨?_, ⟨row, List.mem_append_right _ hrow, hrole⟩, h.role_eq, h.corner⟩
  intro row hrow
  rcases List.mem_append.mp hrow with hrow | hrow
  · exact hmore row hrow
  · exact h.passes row hrow

theorem gap_passes {row : Row} (hl : p.labels[i]? = some l) (hm : l.isMultiline = true)
    (hstart : l.startLine < line) (hend : line ≤ l.endLine)
    (hrow : p.gapRow (p.openBy line) = .ok row) : p.Passes i l row := by
  obtain ⟨hrole, hleads⟩ := gapRow_leads hrow
  have hmem := entry_mem_openBy hl hm hstart hend
  exact passes_of_carries (by simp [hrole])
    (margin_carries hl hm (p.openBy_slots_nodup line) hmem hleads)

theorem LineBlock.pointers_pass (b : LineBlock p config line) {row : Row}
    (hl : p.labels[i]? = some l) (hm : l.isMultiline = true) (hstart : l.startLine ≤ line)
    (hend : line ≤ l.endLine) (hrow : row ∈ b.pointers ++ b.spacer) : p.Passes i l row := by
  obtain ⟨hcode, _, hleads⟩ := b.pointers_lead hrow
  have hon := entry_mem_openOn hl hm hstart hend
  exact passes_of_carries (hcode _)
    (margin_carries hl hm (p.openOn_slots_nodup line) hon hleads)

/-- Below the code of a line on which a label does not end, all rows are passed. -/
theorem LineBlock.below_passes (b : LineBlock p config line) {row : Row}
    (hl : p.labels[i]? = some l) (hm : l.isMultiline = true) (hstart : l.startLine ≤ line)
    (hend : line < l.endLine) (hrow : row ∈ b.pointers ++ b.spacer ++ b.closing) :
    p.Passes i l row := by
  rcases List.mem_append.mp hrow with hrow | hrow
  · exact b.pointers_pass hl hm hstart (Nat.le_of_lt hend) hrow
  · obtain ⟨e, he, hrole, hleads⟩ := b.closing_leads hrow
    have hmem : p.entry i l ∈ p.openBelow line e.index :=
      mem_openBelow_iff.mpr ⟨i, l, hl, hm, ⟨hstart, .inl hend⟩, rfl⟩
    exact passes_of_carries (by simp [hrole]) (closing_carries hl hm he hmem hleads)

theorem gaps_pass {gap : List Row} (hl : p.labels[i]? = some l) (hm : l.isMultiline = true)
    (hstart : l.startLine < line) (hend : line ≤ l.endLine)
    (hgap : gap = [] ∨ ∃ row, gap = [row] ∧ p.gapRow (p.openBy line) = .ok row ∧ row.IsBare .gap) :
    ∀ row ∈ gap, p.Passes i l row := by
  rcases hgap with rfl | ⟨row, rfl, hrow, _⟩
  · simp
  · intro r hr
    rw [List.mem_singleton.mp hr]
    exact gap_passes hl hm hstart hend hrow

/-- A line between the first and the last of a label is passed. -/
theorem IsChunk.passes {chunk : List Row} (h : p.IsChunk config line chunk)
    (hl : p.labels[i]? = some l) (hm : l.isMultiline = true) (hstart : l.startLine < line)
    (hend : line < l.endLine) : ∀ row ∈ chunk, p.Passes i l row := by
  obtain ⟨gap, b, rfl, hgap⟩ := h
  intro row hrow
  rcases List.mem_append.mp hrow with hrow | hrow
  · exact gaps_pass hl hm hstart (Nat.le_of_lt hend) hgap row hrow
  rcases List.mem_cons.mp hrow with rfl | hrow
  · have hrole : Role.code line ≠ .code l.endLine := by
      rw [ne_eq, Role.code.injEq]
      omega
    exact passes_of_carries hrole (code_carries hl hm hstart hend b.code_leads)
  · exact b.below_passes hl hm (Nat.le_of_lt hstart) hend hrow

/-- On the first line of a label its connector begins. -/
theorem IsChunk.starts {chunk : List Row} (h : p.IsChunk config line chunk)
    (hl : p.labels[i]? = some l) (hm : l.isMultiline = true) (hstart : l.startLine = line) :
    ∃ above first below, chunk = above ++ first :: below ∧ first.role = .code l.startLine ∧
      first.body[2 * p.slotOf i]? = some (.drawn .ltop l.label.color) ∧
      ∀ row ∈ below, p.Passes i l row := by
  obtain ⟨gap, b, rfl, hgap⟩ := h
  have hlt := (isMultiline_iff (List.mem_of_getElem? hl)).mp hm
  refine ⟨gap, _, _, rfl, ?_, code_starts hl hm hstart b.code_leads, ?_⟩
  · rw [hstart]
  · exact fun row hrow => b.below_passes hl hm (by omega) (by omega) hrow

/-- On the last line of a label its connector ends, behind the messages of the labels that start
after it and end there too. -/
theorem IsChunk.ends {chunk : List Row} (h : p.IsChunk config line chunk)
    (hl : p.labels[i]? = some l) (hm : l.isMultiline = true) (hend : l.endLine = line) :
    ∃ front last below, chunk = front ++ last :: below ∧ p.EndsIn i l front last := by
  obtain ⟨gap, b, rfl, hgap⟩ := h
  have hlt := (isMultiline_iff (List.mem_of_getElem? hl)).mp hm
  have hmem : p.entry i l ∈ (endingAt line (p.openOn line)).reverse := by
    rw [List.mem_reverse, mem_endingAt_iff]
    exact ⟨entry_mem_openOn hl hm (by omega) (by omega), hend⟩
  obtain ⟨before, after, hsplit⟩ := List.append_of_mem hmem
  have hclosing := b.closing_rows
  have hdescending := p.closings_descending line
  rw [hsplit] at hclosing
  rw [hsplit, List.pairwise_map, List.pairwise_append] at hdescending
  obtain ⟨front, rest, hrows, hbefore, hrest⟩ := forall₂_append_left hclosing
  obtain ⟨last, below, hlast, _, rfl⟩ := List.forall₂_cons_left_iff.mp hrest
  obtain ⟨hrole, hleads⟩ := closingRow_leads hlast
  have harrow := slotOf_lt_arrow hl hm
  refine ⟨gap ++ (⟨.code line, trimBlanks (b.lead ++ codeCells b.fragments)⟩ ::
    (b.pointers ++ b.spacer ++ front)), last, below, ?_, ?_, ?_, ?_, ?_⟩
  · rw [LineBlock.rows, hrows]
    simp only [List.append_assoc, List.cons_append]
  · intro row hrow
    rcases List.mem_append.mp hrow with hrow | hrow
    · exact gaps_pass hl hm (by omega) (by omega) hgap row hrow
    rcases List.mem_cons.mp hrow with rfl | hrow
    · rw [Passes, if_pos (by rw [hend])]
      exact code_ends hl hm hend b.code_leads
    rcases List.mem_append.mp hrow with hrow | hrow
    · exact b.pointers_pass hl hm (by omega) (by omega) hrow
    · obtain ⟨e, he, hclosed⟩ := forall₂_mem_right hbefore hrow
      have hlater : i < e.index := hdescending.2.2 e he _ List.mem_cons_self
      have hending : e ∈ endingAt line (p.openOn line) := by
        rw [← List.mem_reverse, hsplit]
        exact List.mem_append_left _ he
      have hopen : p.entry i l ∈ p.openBelow line e.index :=
        mem_openBelow_iff.mpr ⟨i, l, hl, hm, ⟨by omega, .inr ⟨hend, hlater⟩⟩, rfl⟩
      obtain ⟨hclosedRole, hclosedLeads⟩ := closingRow_leads hclosed
      exact passes_of_carries (by simp [hclosedRole])
        (closing_carries hl hm hending hopen hclosedLeads)
  · exact ⟨_, List.mem_append_right _ List.mem_cons_self, by rw [hend]⟩
  · rw [hrole, hend]
    rfl
  · exact hleads.getElem? (by omega) closingCell_entry

/-- From below its first line a connector runs to its message. -/
theorem exists_end {lines : List Nat} {chunks : List (List Row)}
    (hincreasing : lines.Pairwise (· < ·)) (h : List.Forall₂ (p.IsChunk config) lines chunks)
    (hl : p.labels[i]? = some l) (hm : l.isMultiline = true)
    (hstart : ∀ line ∈ lines, l.startLine < line) (hend : l.endLine ∈ lines) :
    ∃ front last below, chunks.flatten = front ++ last :: below ∧ p.EndsIn i l front last := by
  induction h with
  | nil => cases hend
  | @cons line chunk lines chunks hchunk _ ih =>
    obtain ⟨hlater, hincreasing⟩ := List.pairwise_cons.mp hincreasing
    rcases List.mem_cons.mp hend with hend | hend
    · obtain ⟨front, last, below, rfl, hends⟩ := hchunk.ends hl hm hend
      exact ⟨front, last, below ++ chunks.flatten, by simp, hends⟩
    · obtain ⟨front, last, below, heq, hends⟩ :=
        ih hincreasing (fun next hnext => hstart next (List.mem_cons_of_mem _ hnext)) hend
      have hpasses := hchunk.passes hl hm (hstart line List.mem_cons_self) (hlater _ hend)
      refine ⟨chunk ++ front, last, below, ?_, hends.prepend hpasses⟩
      rw [List.flatten_cons, heq, List.append_assoc]

/-- Through the relevant lines, in order, a connector runs from its first line to its message. -/
theorem hasConnector_flatten {lines : List Nat} {chunks : List (List Row)}
    (hincreasing : lines.Pairwise (· < ·)) (h : List.Forall₂ (p.IsChunk config) lines chunks)
    (hl : p.labels[i]? = some l) (hm : l.isMultiline = true)
    (hstart : l.startLine ∈ lines) (hend : l.endLine ∈ lines) :
    p.HasConnector i l chunks.flatten := by
  have hlt := (isMultiline_iff (List.mem_of_getElem? hl)).mp hm
  induction h with
  | nil => cases hend
  | @cons line chunk lines chunks hchunk hchunks ih =>
    obtain ⟨hlater, hincreasing⟩ := List.pairwise_cons.mp hincreasing
    rcases List.mem_cons.mp hstart with hstart | hstart
    · have hend : l.endLine ∈ lines := (List.mem_cons.mp hend).resolve_left (by omega)
      obtain ⟨above, first, below, rfl, hrole, hcorner, hbelow⟩ := hchunk.starts hl hm hstart
      obtain ⟨front, last, rest, heq, hends⟩ :=
        exists_end hincreasing hchunks hl hm (fun next hnext => hstart ▸ hlater next hnext) hend
      refine ⟨above, first, below ++ front, last, rest, ?_, hrole, hcorner, hends.prepend hbelow⟩
      simp only [List.flatten_cons, heq, List.append_assoc, List.cons_append]
    · have hfirst := hlater _ hstart
      have hend : l.endLine ∈ lines := (List.mem_cons.mp hend).resolve_left (by omega)
      obtain ⟨above, first, between, last, below, heq, hconnector⟩ := ih hincreasing hstart hend
      refine ⟨chunk ++ above, first, between, last, below, ?_, hconnector⟩
      rw [List.flatten_cons, heq, List.append_assoc]

theorem HasConnector.of_flatten {above rows below : List Row} (h : p.HasConnector i l rows) :
    p.HasConnector i l (above ++ rows ++ below) := by
  obtain ⟨front, first, between, last, back, rfl, hconnector⟩ := h
  refine ⟨above ++ front, first, between, last, back ++ below, ?_, hconnector⟩
  simp only [List.append_assoc, List.cons_append]

/-- What is open while a line is drawn after other lines. -/
def openedAfter (p : Placement) (config : Config) (done : List Nat) (line : Nat) : List OpenLabel :=
  p.openAt line (p.touching line) (p.blocks config none done []).active

theorem openedAfter_eq (h : p.Aligned) {done rest : List Nat}
    (hsplit : p.relevantLines = done ++ line :: rest) :
    p.openedAfter config done line = p.openOn line := by
  rw [openedAfter, blocks_done config h hsplit]
  exact p.openAt_openBy line

/-- A row of code to which a connector is joined: it has an arrow, and nothing is blank from the
connector to the arrow. -/
structure JoinsCode (p : Placement) (i : Nat) (row : Row) : Prop where
  arrow : ∃ color, row.body[p.marginWidth - 2]? = some (.drawn .rarrow color)
  drawn : ∀ c, 2 * p.slotOf i ≤ c → c + 2 ≤ p.marginWidth →
    ∃ glyph color, row.body[c]? = some (.drawn glyph color)

/-- A row in which a connector ends while others are open: right of its corner a bar runs that crosses
the others and nothing else. -/
structure ClosesUnder (p : Placement) (e : OpenLabel) (active : List OpenLabel) (row : Row) :
    Prop where
  corner : row.body[2 * e.slot]? = some (.drawn .lbot e.color)
  crossed : ∀ o ∈ active, e.slot < o.slot → row.body[2 * o.slot]? = some (.drawn .xbar o.color)
  bar : ∀ c, 2 * e.slot < c → c + 2 ≤ p.marginWidth → (∀ o ∈ active, 2 * o.slot ≠ c) →
    row.body[c]? = some (.drawn .hbar e.color)

theorem joinsCode_of_leads {row : Row} (hl : p.labels[i]? = some l) (hm : l.isMultiline = true)
    (hline : l.startLine = line ∨ l.endLine = line)
    (hleads : row.Leads p.marginWidth (p.codeMargin line)) : p.JoinsCode i row :=
  ⟨(code_joined hl hm hline hleads).1, (code_joined hl hm hline hleads).2⟩

theorem closesUnder_of_leads {e : OpenLabel} {row : Row} (he : e ∈ p.openOn line)
    (hleads : row.Leads p.marginWidth (p.closingMarginOf line e)) :
    p.ClosesUnder e (p.openBelow line e.index) row := by
  have hslots := p.openBelow_slots_nodup line e.index
  have hfits : ∀ o ∈ p.openBelow line e.index, 2 * o.slot + 2 < p.marginWidth :=
    fun o ho => slot_lt_marginWidth (slot_lt_depth ho)
  have harrow := slot_lt_marginWidth (slot_lt_depth he)
  refine ⟨hleads.getElem? (by omega) closingCell_entry, ?_, ?_⟩
  · intro o ho hslot
    have hright := hfits o ho
    exact hleads.getElem? (by omega)
      (closingCell_crossed (by omega) (by omega) (connectorAt_of_mem hslots ho))
  · intro c hleft hright hnone
    have hfind : connectorAt (p.openBelow line e.index) c = none := by
      rw [connectorAt, List.find?_eq_none]
      exact fun o ho hcolumn => hnone o ho (eq_of_beq hcolumn)
    exact hleads.getElem? (by omega) (closingCell_bar hleft hright hfind)

/-- A row in which a label ends is drawn when the label is closed, beside the labels still open. -/
theorem exists_closing {e : OpenLabel} (he : e ∈ endingAt line (p.openOn line)) :
    ∃ closed pending, (endingAt line (p.openOn line)).reverse = closed ++ e :: pending ∧
      (p.closeAll line (p.openOn line) (closed ++ [e])).active = p.openBelow line e.index := by
  obtain ⟨closed, pending, hsplit⟩ := List.append_of_mem (List.mem_reverse.mpr he)
  have hfits : ∀ o ∈ p.openOn line, 2 * o.slot < p.marginWidth := openList_fits
  have hending : ∀ o ∈ closed ++ [e], 2 * o.slot < p.marginWidth := by
    intro o ho
    apply endingAt_fits line hfits
    rw [hsplit, List.append_cons]
    exact List.mem_append_left _ ho
  obtain ⟨rows, hrows, _⟩ := closeAll_shown line hfits hending
  refine ⟨closed, pending, hsplit, ?_⟩
  rw [hrows]
  exact foldl_erase_openOn hsplit

/-- A row of code and a row in which a label ends are found in the block of their line. -/
theorem exists_lineBlock_of_report {above below : List Row} {chunks : List (List Row)} {row : Row}
    (hchunks : List.Forall₂ (p.IsChunk config) p.relevantLines chunks)
    (houter : ∀ row, row ∈ above ∨ row ∈ below → row.role.line? = none)
    (hrow : row ∈ above ++ chunks.flatten ++ below) (hrole : row.role.line? ≠ none) :
    ∃ line, ∃ b : LineBlock p config line, row ∈ b.rows := by
  rcases mem_report_rows hchunks hrow with hout | ⟨line, chunk, hmem, hchunk⟩
  · exact absurd (houter row hout) hrole
  rcases hchunk.mem_cases hmem with hgap | ⟨b, hb⟩
  · rw [hgap.role_eq] at hrole
    exact absurd rfl hrole
  · exact ⟨line, b, hb⟩

end Placement

variable {catalog : Catalog} {d : Diagnostic} {text : String} {p : Placement}

/-- In a report every label of several lines has one connector without a break, in a slot that it
shares with no label that is open on the same line. On the lines where a label starts or ends, and in
the row where it ends, nothing is blank between its connector and the arrow or the message. -/
theorem connectors_of_render (h : render catalog d = .ok text)
    (hcanvas : Canvas.ofDiagnostic catalog d = .ok ⟨d, some p⟩) :
    ∃ rows, (⟨d, some p⟩ : Canvas).rows = .ok rows ∧
      text = String.ofList ((⟨d, some p⟩ : Canvas).text rows) ∧
      (∀ done line rest, p.relevantLines = done ++ line :: rest →
        p.Holds p.slotOf (fun l => l.startLine ≤ line ∧ line ≤ l.endLine)
          (p.openedAfter d.config done line) ∧
        ((p.openedAfter d.config done line).map OpenLabel.slot).Nodup) ∧
      (∀ i l, p.labels[i]? = some l → l.isMultiline = true → p.HasConnector i l rows) ∧
      (∀ i l, p.labels[i]? = some l → l.isMultiline = true → ∀ row ∈ rows,
        row.role = .code l.startLine ∨ row.role = .code l.endLine → p.JoinsCode i row) ∧
      ∀ row ∈ rows, ∀ line i, row.role = .closing line i →
        ∃ done rest closed e pending, p.relevantLines = done ++ line :: rest ∧
          (Placement.endingAt line (p.openedAfter d.config done line)).reverse =
            closed ++ e :: pending ∧ e.index = i ∧
          p.ClosesUnder e
            (p.closeAll line (p.openedAfter d.config done line) (closed ++ [e])).active row := by
  obtain ⟨hne, haligned, _⟩ := placement_of_render h hcanvas
  obtain ⟨above, chunks, below, hrows, hreport, houter⟩ := Canvas.report_rows d hne haligned
  have hchunks : List.Forall₂ (p.IsChunk d.config) p.relevantLines chunks :=
    hreport.imp fun line chunk hchunk => hchunk.2
  have houterLine : ∀ row, row ∈ above ∨ row ∈ below → row.role.line? = none :=
    fun row hrow => (houter row hrow).1
  refine ⟨above ++ chunks.flatten ++ below, hrows, ?_, ?_, ?_, ?_, ?_⟩
  · exact Except.ok.inj (h.symm.trans (render_of_rows_ok hcanvas hrows))
  · intro done line rest hsplit
    rw [Placement.openedAfter_eq haligned hsplit]
    exact ⟨Placement.holds_openList fun i l => by simp, p.openOn_slots_nodup line⟩
  · intro i l hl hm
    have hmem := List.mem_of_getElem? hl
    exact (Placement.hasConnector_flatten p.relevantLines_increasing hchunks hl hm
      (Placement.mem_relevantLines_iff.mpr ⟨l, hmem, .inl rfl⟩)
      (Placement.mem_relevantLines_iff.mpr ⟨l, hmem, .inr rfl⟩)).of_flatten
  · intro i l hl hm row hrow hrole
    have hline : row.role.line? ≠ none := by
      rcases hrole with hrole | hrole <;> rw [hrole] <;> exact Option.some_ne_none _
    obtain ⟨line, b, hmem⟩ := Placement.exists_lineBlock_of_report hchunks houterLine hrow hline
    rcases hrole with hrole | hrole
    · obtain ⟨hstart, hleads⟩ := b.leads_of_code hmem hrole
      exact Placement.joinsCode_of_leads hl hm (.inl hstart) hleads
    · obtain ⟨hend, hleads⟩ := b.leads_of_code hmem hrole
      exact Placement.joinsCode_of_leads hl hm (.inr hend) hleads
  · intro row hrow line i hrole
    have hline : row.role.line? ≠ none := by
      rw [hrole]
      exact Option.some_ne_none _
    obtain ⟨k, b, hmem⟩ := Placement.exists_lineBlock_of_report hchunks houterLine hrow hline
    obtain ⟨rfl, e, he, hindex, hleads⟩ := b.leads_of_closing hmem hrole
    obtain ⟨closed, pending, hending, hactive⟩ := Placement.exists_closing he
    obtain ⟨hon, hlast⟩ := Placement.mem_endingAt_iff.mp he
    obtain ⟨j, m, hj, _, _, rfl⟩ := Placement.mem_openList_iff.mp hon
    have hrelevant : line ∈ p.relevantLines := Placement.mem_relevantLines_iff.mpr
      ⟨m, List.mem_of_getElem? hj, .inr hlast⟩
    obtain ⟨done, rest, hsplit⟩ := List.append_of_mem hrelevant
    refine ⟨done, rest, closed, p.entry j m, pending, hsplit, ?_, hindex, ?_⟩
    · rw [Placement.openedAfter_eq haligned hsplit, hending]
    · rw [Placement.openedAfter_eq haligned hsplit, hactive]
      exact Placement.closesUnder_of_leads hon hleads

theorem exists_multiline_crossing {q : Placement}
    (hcanvas : Canvas.ofDiagnostic ⟨[(.name "letters", letters)]⟩ crossing = .ok ⟨crossing, some q⟩) :
    ∃ (i : Nat) (l : Placed), q.labels[i]? = some l ∧ l.isMultiline = true := by
  obtain ⟨_, hsource, hplaced⟩ := Canvas.placed hcanvas
  have hletters : letters = q.source := Option.some.inj hsource
  have hsecond : ⟨⟨3, 8, by omega⟩, "second", .default⟩ ∈ crossing.labels := List.mem_cons_self
  obtain ⟨l, hmem, hlabel⟩ := (Placement.mem_labels_iff hplaced).mp hsecond
  have hlines := q.lines_eq l hmem
  have hspan : letters.spanLines ⟨3, 8, by omega⟩ = .ok (1, 2) := by decide
  rw [← hletters, hlabel, hspan] at hlines
  obtain ⟨hstart, hend⟩ := Prod.mk.inj (Except.ok.inj hlines)
  obtain ⟨i, hl⟩ := List.mem_iff_getElem?.mp hmem
  exact ⟨i, l, hl, (Placement.isMultiline_iff hmem).mpr (by omega)⟩

theorem connectors_crossing : ∃ p rows, ∃ (i : Nat) (l : Placed),
    Canvas.ofDiagnostic ⟨[(.name "letters", letters)]⟩ crossing = .ok ⟨crossing, some p⟩ ∧
      (⟨crossing, some p⟩ : Canvas).rows = .ok rows ∧ p.labels[i]? = some l ∧
      l.isMultiline = true ∧ p.HasConnector i l rows := by
  obtain ⟨text, p, htext, hcanvas⟩ := crossing_rendered
  obtain ⟨rows, hrows, _, _, hconnectors, _⟩ := connectors_of_render htext hcanvas
  obtain ⟨i, l, hl, hm⟩ := exists_multiline_crossing hcanvas
  exact ⟨p, rows, i, l, hcanvas, hrows, hl, hm, hconnectors i l hl hm⟩

end Callout

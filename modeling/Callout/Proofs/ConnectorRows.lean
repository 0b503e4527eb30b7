import Callout.Proofs.BlockRows
import Callout.Proofs.DrawnLines
import Callout.Proofs.MarginColumns

namespace Callout

theorem pointerRows_leads {config : Config} {width line : Nat} {active : List OpenLabel}
    {targets : List Target} {rows : List Row} {row : Row}
    (hfits : ∀ e ∈ active, 2 * e.slot < width)
    (h : Placement.pointerRows config width active line targets = .ok rows) (hrow : row ∈ rows) :
    (row.role = .underlines line ∨ ∃ i, row.role = .message line i) ∧
      row.Leads width (marginCell active) := by
  unfold Placement.pointerRows at h
  split at h
  next =>
    cases h
    cases hrow
  next =>
    obtain ⟨underlines, _, h⟩ := bind_eq_ok_iff.mp h
    obtain ⟨lead, hlead, h⟩ := bind_eq_ok_iff.mp h
    obtain ⟨messages, _, h⟩ := bind_eq_ok_iff.mp h
    cases (margin_eq hfits).symm.trans hlead
    cases h
    rcases List.mem_cons.mp hrow with rfl | hrow
    · exact ⟨.inl rfl, _, rfl⟩
    · obtain ⟨drawn, _, rfl⟩ := List.mem_map.mp hrow
      exact ⟨.inr ⟨_, rfl⟩, _, rfl⟩

theorem spacerRow_leads {width line : Nat} {active : List OpenLabel} {rows : List Row} {row : Row}
    (hfits : ∀ e ∈ active, 2 * e.slot < width)
    (h : Placement.spacerRow width active line = .ok rows) (hrow : row ∈ rows) :
    row.role = .spacer line ∧ row.Leads width (marginCell active) := by
  unfold Placement.spacerRow at h
  split at h
  next =>
    cases h
    cases hrow
  next =>
    obtain ⟨lead, hlead, h⟩ := bind_eq_ok_iff.mp h
    cases (margin_eq hfits).symm.trans hlead
    cases h
    rw [List.mem_singleton.mp hrow]
    exact ⟨rfl, [], by rw [List.append_nil]⟩

namespace Placement

variable {p : Placement} {config : Config} {line i : Nat} {l : Placed}

theorem entry_mem_openOn (hl : p.labels[i]? = some l) (hm : l.isMultiline = true)
    (hstart : l.startLine ≤ line) (hend : line ≤ l.endLine) : p.entry i l ∈ p.openOn line := by
  refine mem_openList_iff.mpr ⟨i, l, hl, hm, ?_, rfl⟩
  rw [Bool.and_eq_true, decide_eq_true_eq, decide_eq_true_eq]
  exact ⟨hstart, hend⟩

theorem entry_mem_openBy (hl : p.labels[i]? = some l) (hm : l.isMultiline = true)
    (hstart : l.startLine < line) (hend : line ≤ l.endLine) : p.entry i l ∈ p.openBy line := by
  refine mem_openList_iff.mpr ⟨i, l, hl, hm, ?_, rfl⟩
  rw [Bool.and_eq_true, decide_eq_true_eq, decide_eq_true_eq]
  exact ⟨hstart, hend⟩

theorem openBy_slots_nodup (p : Placement) (line : Nat) :
    ((p.openBy line).map OpenLabel.slot).Nodup := by
  apply openList_slots_nodup line
  intro j m hkeep
  simp only [Placed.reaches, Bool.and_eq_true, decide_eq_true_eq] at hkeep ⊢
  omega

theorem gapRow_leads {row : Row} (h : p.gapRow (p.openBy line) = .ok row) :
    row.role = .gap ∧ row.Leads p.marginWidth (marginCell (p.openBy line)) := by
  have hfits : ∀ e ∈ p.openBy line, 2 * e.slot < p.marginWidth := openList_fits
  obtain ⟨lead, hlead, h⟩ := bind_eq_ok_iff.mp h
  cases (margin_eq hfits).symm.trans hlead
  cases h
  exact ⟨rfl, [], by rw [List.append_nil]⟩

theorem closingRow_leads {active : List OpenLabel} {e : OpenLabel} {row : Row}
    (h : p.closingRow line active e = .ok row) :
    row.role = .closing line e.index ∧
      row.Leads p.marginWidth (closingCell p.marginWidth active e) := by
  obtain ⟨lead, hlead, h⟩ := bind_eq_ok_iff.mp h
  cases eq_of_closingMargin hlead
  cases h
  exact ⟨rfl, _, rfl⟩

/-- What is open on a line once the labels from `bound` on that end there are closed. -/
def openBelow (p : Placement) (line bound : Nat) : List OpenLabel :=
  p.openList fun i l => l.startLine ≤ line &&
    (line < l.endLine || (l.endLine == line && decide (i < bound)))

theorem openBelow_slots_nodup (p : Placement) (line bound : Nat) :
    ((p.openBelow line bound).map OpenLabel.slot).Nodup := by
  apply openList_slots_nodup line
  intro i l hkeep
  simp only [Placed.reaches, Bool.and_eq_true, Bool.or_eq_true, decide_eq_true_eq,
    beq_iff_eq] at hkeep ⊢
  omega

/-- Labels are closed from the last to the first, so those that end on a line and are still open when
one of them is closed are the ones before it. -/
theorem foldl_erase_openOn {closed pending : List OpenLabel} {e : OpenLabel}
    (h : (endingAt line (p.openOn line)).reverse = closed ++ e :: pending) :
    (closed ++ [e]).foldl List.erase (p.openOn line) = p.openBelow line e.index := by
  have hdescending := p.closings_descending line
  rw [h, List.pairwise_map, List.pairwise_append, List.pairwise_cons] at hdescending
  obtain ⟨_, ⟨hpending, _⟩, hclosed⟩ := hdescending
  have hending : ∀ x, x ∈ closed ++ e :: pending ↔ x ∈ p.openOn line ∧ x.endLine = line := by
    intro x
    rw [← h, List.mem_reverse, mem_endingAt_iff]
  have hnodup : (p.openOn line).Nodup := p.openList_nodup _
  rw [← List.diff_eq_foldl, hnodup.sdiff_eq_filter]
  apply eq_of_increasing (f := OpenLabel.index)
  · exact (p.openList_increasing _).filter _
  · exact p.openList_increasing _
  · intro x
    rw [List.mem_filter, decide_eq_true_iff, openBelow, mem_openList_iff]
    simp only [Bool.and_eq_true, Bool.or_eq_true, decide_eq_true_eq, beq_iff_eq]
    constructor
    · rintro ⟨hx, hopen⟩
      obtain ⟨j, m, hm, hmm, hkeep, rfl⟩ := mem_openList_iff.mp hx
      simp only [Bool.and_eq_true, decide_eq_true_eq] at hkeep
      refine ⟨j, m, hm, hmm, ⟨hkeep.1, ?_⟩, rfl⟩
      by_cases hlast : m.endLine = line
      · have hmem := (hending _).mpr ⟨hx, hlast⟩
        have hlater : p.entry j m ∈ pending := by
          simp only [List.mem_append, List.mem_cons, List.not_mem_nil, or_false] at hmem hopen
          tauto
        exact .inr ⟨hlast, hpending _ hlater⟩
      · exact .inl (by omega)
    · rintro ⟨j, m, hm, hmm, ⟨hstart, hend⟩, rfl⟩
      have hx := entry_mem_openOn hm hmm hstart (show line ≤ m.endLine by omega)
      refine ⟨hx, fun hmem => ?_⟩
      have hboth : p.entry j m ∈ closed ++ e :: pending := by
        simp only [List.mem_append, List.mem_cons, List.not_mem_nil, or_false] at hmem ⊢
        tauto
      have hlast : m.endLine = line := ((hending _).mp hboth).2
      have hlt : j < e.index := by omega
      rcases List.mem_append.mp hmem with hmem | hmem
      · have hgt : e.index < j := hclosed _ hmem e List.mem_cons_self
        omega
      · have hindex : j = e.index := congrArg OpenLabel.index (List.mem_singleton.mp hmem)
        omega

/-- The rows that close labels, each beside the labels that are still open. -/
theorem closeAll_rows {closed pending : List OpenLabel}
    (h : (endingAt line (p.openOn line)).reverse = closed ++ pending) :
    ∃ rows, (p.closeAll line (closed.foldl List.erase (p.openOn line)) pending).rows = .ok rows ∧
      List.Forall₂ (fun e row => p.closingRow line (p.openBelow line e.index) e = .ok row)
        pending rows := by
  induction pending generalizing closed with
  | nil => exact ⟨[], rfl, .nil⟩
  | cons e pending ih =>
    have hopen : (closed.foldl List.erase (p.openOn line)).erase e = p.openBelow line e.index := by
      rw [← foldl_erase_openOn h, List.foldl_append]
      rfl
    have hnext : (endingAt line (p.openOn line)).reverse = (closed ++ [e]) ++ pending := by
      rw [h, List.append_assoc]
      rfl
    obtain ⟨rows, hrows, hall⟩ := ih hnext
    rw [foldl_erase_openOn h] at hrows
    have hmem : e ∈ (endingAt line (p.openOn line)).reverse := by
      rw [h]
      exact List.mem_append_right _ List.mem_cons_self
    have hfits : ∀ o ∈ p.openBelow line e.index, 2 * o.slot < p.marginWidth := openList_fits
    have hentry := endingAt_fits line openList_fits e hmem
    obtain ⟨lead, hlead, _⟩ := closingMargin_painted hfits hentry
    obtain ⟨row, hrow⟩ : ∃ row, p.closingRow line (p.openBelow line e.index) e = .ok row :=
      ⟨_, by rw [closingRow, hlead]; rfl⟩
    refine ⟨row :: rows, ?_, .cons hrow hall⟩
    simp only [closeAll, hopen, hrow, hrows, Except.map]

theorem LineBlock.closing_rows (b : LineBlock p config line) :
    List.Forall₂ (fun e row => p.closingRow line (p.openBelow line e.index) e = .ok row)
      (endingAt line (p.openOn line)).reverse b.closing := by
  obtain ⟨rows, hrows, hall⟩ := closeAll_rows (p := p) (List.nil_append _).symm
  cases hrows.symm.trans b.closing_eq
  exact hall

/-- The margin of the code of a line. -/
def codeMargin (p : Placement) (line : Nat) : Nat → Cell :=
  codeCell p.marginWidth (p.openOn line) (joints line (p.openBy line) (p.openOn line))

/-- The margin of the row in which a label ends. -/
def closingMarginOf (p : Placement) (line : Nat) (e : OpenLabel) : Nat → Cell :=
  closingCell p.marginWidth (p.openBelow line e.index) e

theorem LineBlock.code_leads (b : LineBlock p config line) :
    (⟨.code line, trimBlanks (b.lead ++ codeCells b.fragments)⟩ : Row).Leads p.marginWidth
      (p.codeMargin line) := by
  have hfits : ∀ e ∈ p.openOn line, 2 * e.slot < p.marginWidth := openList_fits
  refine ⟨codeCells b.fragments, ?_⟩
  rw [← Except.ok.inj ((jointMargin_eq _ hfits).symm.trans b.lead_eq)]
  rfl

theorem LineBlock.pointers_lead (b : LineBlock p config line) {row : Row}
    (hrow : row ∈ b.pointers ++ b.spacer) : (∀ k, row.role ≠ .code k) ∧
      (∀ k i, row.role ≠ .closing k i) ∧
      row.Leads p.marginWidth (marginCell (p.openOn line)) := by
  rcases List.mem_append.mp hrow with hrow | hrow
  · obtain ⟨hrole | ⟨i, hrole⟩, hleads⟩ := pointerRows_leads openList_fits b.pointers_eq hrow
    · exact ⟨by simp [hrole], by simp [hrole], hleads⟩
    · exact ⟨by simp [hrole], by simp [hrole], hleads⟩
  · obtain ⟨hrole, hleads⟩ := spacerRow_leads openList_fits b.spacer_eq hrow
    exact ⟨by simp [hrole], by simp [hrole], hleads⟩

theorem LineBlock.closing_leads (b : LineBlock p config line) {row : Row} (hrow : row ∈ b.closing) :
    ∃ e ∈ endingAt line (p.openOn line), row.role = .closing line e.index ∧
      row.Leads p.marginWidth (p.closingMarginOf line e) := by
  obtain ⟨e, he, hclosing⟩ := forall₂_mem_right b.closing_rows hrow
  obtain ⟨hrole, hleads⟩ := closingRow_leads hclosing
  exact ⟨e, List.mem_reverse.mp he, hrole, hleads⟩

theorem LineBlock.leads_of_code (b : LineBlock p config line) {k : Nat} {row : Row}
    (hrow : row ∈ b.rows) (hrole : row.role = .code k) :
    k = line ∧ row.Leads p.marginWidth (p.codeMargin line) := by
  rcases List.mem_cons.mp hrow with rfl | hrow
  · cases hrole
    exact ⟨rfl, b.code_leads⟩
  rcases List.mem_append.mp hrow with hrow | hrow
  · exact absurd hrole ((b.pointers_lead hrow).1 k)
  · obtain ⟨e, _, hclosing, _⟩ := b.closing_leads hrow
    cases hrole.symm.trans hclosing

theorem LineBlock.leads_of_closing (b : LineBlock p config line) {k : Nat} {row : Row}
    (hrow : row ∈ b.rows) (hrole : row.role = .closing k i) :
    k = line ∧ ∃ e ∈ endingAt line (p.openOn line), e.index = i ∧
      row.Leads p.marginWidth (p.closingMarginOf line e) := by
  rcases List.mem_cons.mp hrow with rfl | hrow
  · cases hrole
  rcases List.mem_append.mp hrow with hrow | hrow
  · exact absurd hrole ((b.pointers_lead hrow).2.1 k i)
  · obtain ⟨e, he, hclosing, hleads⟩ := b.closing_leads hrow
    obtain ⟨rfl, rfl⟩ := Role.closing.inj (hrole.symm.trans hclosing)
    exact ⟨rfl, e, he, rfl, hleads⟩

theorem openBy_append_drop (p : Placement) (line : Nat) :
    p.openBy line ++ (p.openOn line).drop (p.openBy line).length = p.openOn line := by
  rw [← List.prefix_iff_eq_append, ← openAt_openBy]
  exact isPrefix_openAt _ _

theorem mem_drop_openOn {e : OpenLabel} :
    e ∈ (p.openOn line).drop (p.openBy line).length ↔ ∃ i l, p.labels[i]? = some l ∧
      l.isMultiline = true ∧ l.startLine = line ∧ e = p.entry i l := by
  have hsplit := p.openBy_append_drop line
  have hnodup : (p.openOn line).Nodup := p.openList_nodup _
  rw [← hsplit] at hnodup
  have hapart := (List.nodup_append.mp hnodup).2.2
  have hmem : e ∈ p.openBy line ∨ e ∈ (p.openOn line).drop (p.openBy line).length ↔
      e ∈ p.openOn line := by rw [← List.mem_append, hsplit]
  constructor
  · intro he
    obtain ⟨i, l, hl, hm, hkeep, rfl⟩ := mem_openList_iff.mp (hmem.mp (.inr he))
    simp only [Bool.and_eq_true, decide_eq_true_eq] at hkeep
    refine ⟨i, l, hl, hm, ?_, rfl⟩
    by_contra hne
    have hby := entry_mem_openBy hl hm (show l.startLine < line by omega) hkeep.2
    exact hapart _ hby _ he rfl
  · rintro ⟨i, l, hl, hm, rfl, rfl⟩
    have hle := startLine_le_endLine (List.mem_of_getElem? hl)
    have hon := entry_mem_openOn hl hm (Nat.le_refl _) hle
    refine (hmem.mpr hon).resolve_left fun hby => ?_
    obtain ⟨j, m, hm', _, hkeep, heq⟩ := mem_openList_iff.mp hby
    obtain rfl : i = j := congrArg OpenLabel.index heq
    cases hl.symm.trans hm'
    simp only [Bool.and_eq_true, decide_eq_true_eq] at hkeep
    omega

/-- Labels are joined to the code where they end and where they start. -/
theorem mem_joints_iff {j : Joint} : j ∈ joints line (p.openBy line) (p.openOn line) ↔
    ∃ i l, p.labels[i]? = some l ∧ l.isMultiline = true ∧
      (l.endLine = line ∧ j = ⟨p.slotOf i, .lcross, l.label.color⟩ ∨
        l.startLine = line ∧ j = ⟨p.slotOf i, .ltop, l.label.color⟩) := by
  rw [joints, List.mem_append, List.mem_map, List.mem_map]
  constructor
  · rintro (⟨e, he, rfl⟩ | ⟨e, he, rfl⟩)
    · obtain ⟨hby, hend⟩ := mem_endingAt_iff.mp he
      obtain ⟨i, l, hl, hm, _, rfl⟩ := mem_openList_iff.mp hby
      exact ⟨i, l, hl, hm, .inl ⟨hend, rfl⟩⟩
    · obtain ⟨i, l, hl, hm, hstart, rfl⟩ := mem_drop_openOn.mp he
      exact ⟨i, l, hl, hm, .inr ⟨hstart, rfl⟩⟩
  · rintro ⟨i, l, hl, hm, ⟨rfl, rfl⟩ | ⟨hstart, rfl⟩⟩
    · have hlt := (isMultiline_iff (List.mem_of_getElem? hl)).mp hm
      have hby := entry_mem_openBy hl hm hlt (Nat.le_refl _)
      exact .inl ⟨p.entry i l, mem_endingAt_iff.mpr ⟨hby, rfl⟩, rfl⟩
    · exact .inr ⟨p.entry i l, mem_drop_openOn.mpr ⟨i, l, hl, hm, hstart, rfl⟩, rfl⟩

theorem joints_slots_nodup (p : Placement) (line : Nat) :
    ((joints line (p.openBy line) (p.openOn line)).map Joint.slot).Nodup := by
  have hslots : (joints line (p.openBy line) (p.openOn line)).map Joint.slot =
      ((endingAt line (p.openBy line)) ++
        (p.openOn line).drop (p.openBy line).length).map OpenLabel.slot := by
    rw [joints, List.map_append, List.map_append, List.map_map, List.map_map]
    rfl
  have hsublist : (endingAt line (p.openBy line) ++
      (p.openOn line).drop (p.openBy line).length).Sublist (p.openOn line) := by
    conv_rhs => rw [← p.openBy_append_drop line]
    exact List.filter_sublist.append_right _
  rw [hslots]
  exact (hsublist.map OpenLabel.slot).nodup (p.openOn_slots_nodup line)

variable {row : Row}

theorem slotOf_lt_arrow (hl : p.labels[i]? = some l) (hm : l.isMultiline = true) :
    2 * p.slotOf i + 2 < p.marginWidth := by
  have hdepth := slotOf_lt_depth hl hm
  rw [marginWidth, if_neg (by omega)]
  omega

theorem code_starts (hl : p.labels[i]? = some l) (hm : l.isMultiline = true)
    (hline : l.startLine = line) (hleads : row.Leads p.marginWidth (p.codeMargin line)) :
    row.body[2 * p.slotOf i]? = some (.drawn .ltop l.label.color) := by
  have harrow := slotOf_lt_arrow hl hm
  have hjoint := mem_joints_iff.mpr ⟨i, l, hl, hm, .inr ⟨hline, rfl⟩⟩
  exact hleads.getElem? (by omega) (codeCell_of_joint (p.joints_slots_nodup line) hjoint harrow)

theorem code_ends (hl : p.labels[i]? = some l) (hm : l.isMultiline = true)
    (hline : l.endLine = line) (hleads : row.Leads p.marginWidth (p.codeMargin line)) :
    row.body[2 * p.slotOf i]? = some (.drawn .lcross l.label.color) := by
  have harrow := slotOf_lt_arrow hl hm
  have hjoint := mem_joints_iff.mpr ⟨i, l, hl, hm, .inl ⟨hline, rfl⟩⟩
  exact hleads.getElem? (by omega) (codeCell_of_joint (p.joints_slots_nodup line) hjoint harrow)

theorem code_carries (hl : p.labels[i]? = some l) (hm : l.isMultiline = true)
    (hstart : l.startLine < line) (hend : line < l.endLine)
    (hleads : row.Leads p.marginWidth (p.codeMargin line)) :
    Carries row.body (2 * p.slotOf i) l.label.color := by
  have harrow := slotOf_lt_arrow hl hm
  have hon := entry_mem_openOn hl hm (Nat.le_of_lt hstart) (Nat.le_of_lt hend)
  have hreaches : l.reaches line = true := by
    simp only [Placed.reaches, Bool.and_eq_true, decide_eq_true_eq]
    omega
  have hnone : ∀ j ∈ joints line (p.openBy line) (p.openOn line), j.slot ≠ (p.entry i l).slot := by
    intro j hj heq
    obtain ⟨k, m, hk, hmm, hends⟩ := mem_joints_iff.mp hj
    have hreaches' : m.reaches line = true := by
      have hle := startLine_le_endLine (List.mem_of_getElem? hk)
      simp only [Placed.reaches, Bool.and_eq_true, decide_eq_true_eq]
      omega
    have hslot : p.slotOf k = p.slotOf i := by
      rcases hends with ⟨_, rfl⟩ | ⟨_, rfl⟩ <;> exact heq
    obtain rfl := slotOf_injective_on_line hk hl hmm hm hreaches' hreaches hslot
    cases hk.symm.trans hl
    omega
  exact hleads.carries (by omega) (codeCell_of_mem (p.openOn_slots_nodup line) hon hnone harrow)

/-- Nothing is blank from a joint to the arrow at the end of the margin. -/
theorem code_joined (hl : p.labels[i]? = some l) (hm : l.isMultiline = true)
    (hline : l.startLine = line ∨ l.endLine = line)
    (hleads : row.Leads p.marginWidth (p.codeMargin line)) :
    (∃ color, row.body[p.marginWidth - 2]? = some (.drawn .rarrow color)) ∧
      ∀ c, 2 * p.slotOf i ≤ c → c + 2 ≤ p.marginWidth →
        ∃ glyph color, row.body[c]? = some (.drawn glyph color) := by
  have harrow := slotOf_lt_arrow hl hm
  obtain ⟨j, hj, hslot⟩ : ∃ j ∈ joints line (p.openBy line) (p.openOn line),
      j.slot = p.slotOf i := by
    rcases hline with hstart | hend
    · exact ⟨_, mem_joints_iff.mpr ⟨i, l, hl, hm, .inr ⟨hstart, rfl⟩⟩, rfl⟩
    · exact ⟨_, mem_joints_iff.mpr ⟨i, l, hl, hm, .inl ⟨hend, rfl⟩⟩, rfl⟩
  constructor
  · obtain ⟨color, hcell⟩ := codeCell_arrow (p.openOn line) hj
      (show p.marginWidth - 2 + 2 = p.marginWidth by omega)
    exact ⟨color, hleads.getElem? (by omega) hcell⟩
  · intro c hleft hright
    obtain ⟨glyph, color, hcell⟩ := codeCell_drawn (p.openOn line) hj
      (show 2 * j.slot ≤ c by omega) hright
    exact ⟨glyph, color, hleads.getElem? (by omega) hcell⟩

theorem margin_carries {active : List OpenLabel} (hl : p.labels[i]? = some l)
    (hm : l.isMultiline = true) (hslots : (active.map OpenLabel.slot).Nodup)
    (hmem : p.entry i l ∈ active) (hleads : row.Leads p.marginWidth (marginCell active)) :
    Carries row.body (2 * p.slotOf i) l.label.color := by
  have harrow := slotOf_lt_arrow hl hm
  exact hleads.carries (by omega) (.inl (marginCell_of_mem hslots hmem))

theorem mem_openBelow_iff {bound : Nat} {e : OpenLabel} : e ∈ p.openBelow line bound ↔
    ∃ i l, p.labels[i]? = some l ∧ l.isMultiline = true ∧
      (l.startLine ≤ line ∧ (line < l.endLine ∨ l.endLine = line ∧ i < bound)) ∧
      e = p.entry i l := by
  simp only [openBelow, mem_openList_iff, Bool.and_eq_true, Bool.or_eq_true, decide_eq_true_eq,
    beq_iff_eq]

theorem closing_carries {e : OpenLabel} (hl : p.labels[i]? = some l) (hm : l.isMultiline = true)
    (he : e ∈ endingAt line (p.openOn line)) (hmem : p.entry i l ∈ p.openBelow line e.index)
    (hleads : row.Leads p.marginWidth (p.closingMarginOf line e)) :
    Carries row.body (2 * p.slotOf i) l.label.color := by
  have harrow := slotOf_lt_arrow hl hm
  obtain ⟨hon, hlast⟩ := mem_endingAt_iff.mp he
  obtain ⟨k, m, hk, hmm, hopen, heq⟩ := mem_openBelow_iff.mp hmem
  obtain rfl : i = k := congrArg OpenLabel.index heq
  cases hl.symm.trans hk
  have hslot : (p.entry i l).slot ≠ e.slot := by
    intro hslot
    have hon' := entry_mem_openOn hl hm hopen.1 (show line ≤ l.endLine by omega)
    obtain rfl := List.inj_on_of_nodup_map (p.openOn_slots_nodup line) hon' hon hslot
    have hend : l.endLine = line := hlast
    have hindex : ¬i < (p.entry i l).index := Nat.lt_irrefl i
    omega
  exact hleads.carries (by omega)
    (closingCell_of_mem (p.openBelow_slots_nodup line _) hmem hslot harrow)

end Placement

end Callout

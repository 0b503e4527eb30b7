import Callout.Proofs.LabelColumns
import Callout.Proofs.OpenLabels
import Callout.Proofs.PaintedCells

namespace Callout

/-- A row of text that begins with nothing but drawn cells. -/
structure Row.Shows (row : Row) (role : Role) (text : String) : Prop where
  role_eq : row.role = role
  body_eq : ∃ lead, (∀ c ∈ lead, Cell.IsFrame c) ∧ row.body = trimBlanks (lead ++ Cell.plain text)

/-- A row without text. -/
structure Row.IsBare (row : Row) (role : Role) : Prop where
  role_eq : row.role = role
  frame : ∀ c ∈ row.body, Cell.IsFrame c

theorem mem_trimBlanks {cells : List Cell} {c : Cell} (h : c ∈ trimBlanks cells) : c ∈ cells :=
  List.mem_reverse.mp ((List.dropWhile_sublist _).subset (List.mem_reverse.mp h))

theorem messageRows_shown (anchors : List Anchor) :
    ∃ rows, messageRows anchors = .ok rows ∧
      List.Forall₂ (fun a r => r.1 = a ∧ ∃ lead, (∀ c ∈ lead, Cell.IsFrame c) ∧
        r.2 = lead ++ Cell.plain a.target.label.message) anchors rows := by
  induction anchors with
  | nil => exact ⟨[], rfl, .nil⟩
  | cons a waiting ih =>
    obtain ⟨row, hrow, hpainted⟩ := messageCells_painted a waiting
    obtain ⟨rows, hrows, hall⟩ := ih
    refine ⟨(a, row ++ .blank :: Cell.plain a.target.label.message) :: rows, ?_, .cons ⟨rfl, ?_⟩ hall⟩
    · rw [messageRows, hrow, hrows]
      rfl
    · refine ⟨row ++ [.blank], ?_, by rw [List.append_assoc]; rfl⟩
      intro c hc
      rcases List.mem_append.mp hc with hc | hc
      · exact hpainted.frame c hc
      · rw [List.mem_singleton.mp hc]
        exact Cell.isFrame_blank

namespace Placement

variable {p : Placement} {i : Nat}

/-- Below the code of a line with labels that lie on it stand one row with underlines and one row
for each of the labels. -/
theorem pointerRows_shown {width : Nat} {active : List OpenLabel} (config : Config) (line : Nat)
    (targets : List Target) (h : ∀ e ∈ active, 2 * e.slot < width) :
    ∃ rows, pointerRows config width active line targets = .ok rows ∧
      (targets = [] ∧ rows = [] ∨ targets ≠ [] ∧ ∃ underlines messages,
        rows = underlines :: messages ∧ underlines.IsBare (.underlines line) ∧
        (∃ lead cells, lead.length = width ∧ underlines.body = trimBlanks (lead ++ cells) ∧
          underlineCells config.underlines targets (anchors config.attach targets) = .ok cells) ∧
        List.Forall₂ (fun a row => row.Shows (.message line a.target.index) a.target.label.message)
          (anchors config.attach targets).reverse messages) := by
  cases targets with
  | nil => exact ⟨[], rfl, .inl ⟨rfl, rfl⟩⟩
  | cons t rest =>
    obtain ⟨underlines, hunderlines, hunder⟩ := underlineCells_painted config.underlines (t :: rest)
      (anchors config.attach (t :: rest))
    obtain ⟨lead, hlead, hlength, hpainted⟩ := margin_painted h
    obtain ⟨messages, hmessages, hall⟩ :=
      messageRows_shown (anchors config.attach (t :: rest)).reverse
    refine ⟨⟨.underlines line, trimBlanks (lead ++ underlines)⟩ ::
      messages.map fun m => ⟨.message line m.1.target.index, trimBlanks (lead ++ m.2)⟩,
      ?_, .inr ⟨by simp, _, _, rfl, ⟨rfl, ?_⟩, ⟨lead, underlines, hlength, rfl, hunderlines⟩, ?_⟩⟩
    · simp only [pointerRows, hunderlines, hlead, hmessages]
      rfl
    · intro c hc
      rcases List.mem_append.mp (mem_trimBlanks hc) with hc | hc
      · exact hpainted.frame c hc
      · exact hunder.frame c hc
    · rw [List.forall₂_map_right_iff]
      refine hall.imp ?_
      intro a drawn hdrawn
      obtain ⟨hanchor, front, hfront, hcells⟩ := hdrawn
      refine ⟨by rw [hanchor], lead ++ front, ?_, ?_⟩
      · intro c hc
        rcases List.mem_append.mp hc with hc | hc
        · exact hpainted.frame c hc
        · exact hfront c hc
      · change trimBlanks (lead ++ drawn.2) = _
        rw [hcells, List.append_assoc]

theorem spacerRow_shown {width : Nat} {active : List OpenLabel} (line : Nat)
    (h : ∀ e ∈ active, 2 * e.slot < width) :
    ∃ rows, spacerRow width active line = .ok rows ∧
      (endingAt line active = [] ∧ rows = [] ∨ endingAt line active ≠ [] ∧
        ∃ spacer, rows = [spacer] ∧ spacer.IsBare (.spacer line)) := by
  obtain ⟨lead, hlead, _, hpainted⟩ := margin_painted h
  cases hending : endingAt line active with
  | nil => exact ⟨[], by rw [spacerRow, hending]; rfl, .inl ⟨rfl, rfl⟩⟩
  | cons e rest =>
    refine ⟨[⟨.spacer line, trimBlanks lead⟩], ?_, .inr ⟨by simp, _, rfl, rfl, ?_⟩⟩
    · rw [spacerRow, hending, hlead]
      rfl
    · exact fun c hc => hpainted.frame c (mem_trimBlanks hc)

theorem closeAll_active_sublist (p : Placement) (line : Nat) (active ending : List OpenLabel) :
    (p.closeAll line active ending).active.Sublist active := by
  induction ending generalizing active with
  | nil => exact List.Sublist.refl _
  | cons e ending ih =>
    rw [closeAll]
    split
    next => exact List.erase_sublist
    next => exact (ih _).trans List.erase_sublist

theorem endingAt_fits {width : Nat} (line : Int) {active : List OpenLabel}
    (h : ∀ e ∈ active, 2 * e.slot < width) :
    ∀ e ∈ (endingAt line active).reverse, 2 * e.slot < width :=
  fun e he => h e (List.mem_of_mem_filter (List.mem_reverse.mp he))

/-- Every label that is closed has one row, and is open no longer. -/
theorem closeAll_shown {active ending : List OpenLabel} (line : Nat)
    (h : ∀ e ∈ active, 2 * e.slot < p.marginWidth) (hending : ∀ e ∈ ending, 2 * e.slot < p.marginWidth) :
    ∃ rows, p.closeAll line active ending = ⟨ending.foldl List.erase active, .ok rows⟩ ∧
      List.Forall₂ (fun e row => row.Shows (.closing line e.index) (p.messageOf e.index))
        ending rows := by
  induction ending generalizing active with
  | nil => exact ⟨[], rfl, .nil⟩
  | cons e rest ih =>
    have hrest : ∀ o ∈ active.erase e, 2 * o.slot < p.marginWidth :=
      fun o ho => h o (List.mem_of_mem_erase ho)
    obtain ⟨hentry, hlater⟩ := List.forall_mem_cons.mp hending
    obtain ⟨lead, hlead, _, hpainted⟩ := closingMargin_painted hrest hentry
    obtain ⟨rows, hrows, hall⟩ := ih hrest hlater
    refine ⟨⟨.closing line e.index, trimBlanks (lead ++ Cell.plain (p.messageOf e.index))⟩ :: rows,
      ?_, .cons ⟨rfl, lead, hpainted.frame, rfl⟩ hall⟩
    have hrow : p.closingRow line (active.erase e) e =
        .ok ⟨.closing line e.index, trimBlanks (lead ++ Cell.plain (p.messageOf e.index))⟩ := by
      rw [closingRow, hlead]
      rfl
    simp only [closeAll, hrow, hrows, Except.map, List.foldl_cons]

theorem openList_fits {keep : Nat → Placed → Bool} :
    ∀ e ∈ p.openList keep, 2 * e.slot < p.marginWidth := by
  intro e he
  have := slot_lt_marginWidth (slot_lt_depth he)
  omega

/-- What the block of a line is drawn from. -/
structure LineBlock (p : Placement) (config : Config) (i : Nat) where
  lead : List Cell
  fragments : List Fragment
  targets : List Target
  pointers : List Row
  spacer : List Row
  closing : List Row
  lead_length : lead.length = p.marginWidth
  lead_frame : ∀ c ∈ lead, Cell.IsFrame c
  lead_eq : jointMargin p.marginWidth (p.openOn i) (joints i (p.openBy i) (p.openOn i)) = .ok lead
  fragments_eq : p.fragments i = .ok fragments
  targets_eq : p.targets i (p.touching i) = .ok targets
  pointers_eq : pointerRows config p.marginWidth (p.openOn i) i targets = .ok pointers
  spacer_eq : spacerRow p.marginWidth (p.openOn i) i = .ok spacer
  closing_eq : (p.closeAll i (p.openOn i) (endingAt i (p.openOn i)).reverse).rows = .ok closing

/-- The rows of a block, from the code down. -/
def LineBlock.rows {p : Placement} {config : Config} {i : Nat} (b : LineBlock p config i) : List Row :=
  ⟨.code i, trimBlanks (b.lead ++ codeCells b.fragments)⟩ :: (b.pointers ++ b.spacer ++ b.closing)

theorem block_of_alignedOn (config : Config) (hi : i < p.source.lines.length)
    (haligned : p.AlignedOn i) :
    ∃ b : LineBlock p config i, p.block config i (p.openBy i) = ⟨p.openPast i, .ok b.rows⟩ := by
  obtain ⟨line, hline⟩ := Source.exists_line hi
  obtain ⟨slice, hslice, _⟩ := Source.exists_lineSlice hline
  have hfits : ∀ e ∈ p.openOn i, 2 * e.slot < p.marginWidth := openList_fits
  obtain ⟨lead, hlead, hlength, hpainted⟩ :=
    jointMargin_painted (joints i (p.openBy i) (p.openOn i)) hfits
  obtain ⟨fragments, hfragments, _⟩ := fragments_of_alignedOn hline hslice haligned
  obtain ⟨targets, htargets, _⟩ := targets_of_alignedOn hline hslice haligned
  obtain ⟨pointers, hpointers, _⟩ := pointerRows_shown config i targets hfits
  obtain ⟨spacer, hspacer, _⟩ := spacerRow_shown i hfits
  obtain ⟨closing, hclosing, _⟩ := closeAll_shown i hfits (endingAt_fits i hfits)
  refine ⟨⟨lead, fragments, targets, pointers, spacer, closing, hlength, hpainted.frame, hlead,
    hfragments, htargets, hpointers, hspacer, by rw [hclosing]⟩, ?_⟩
  have hupper : p.upperRows config i (p.touching i) (p.openBy i) (p.openOn i) =
      .ok (⟨.code i, trimBlanks (lead ++ codeCells fragments)⟩ :: (pointers ++ spacer)) := by
    rw [upperRows, hlead, hfragments, htargets]
    simp only [bind, Except.bind, Int.toNat_natCast, hpointers, hspacer, pure, Except.pure]
  simp only [block, marks_eq_touching, openAt_openBy, hupper, Int.toNat_natCast, hclosing,
    foldl_erase_endingAt, Except.map, LineBlock.rows, List.cons_append, List.append_assoc]

/-- A line whose pieces have no texts is not drawn, for the cause that they have none. -/
theorem block_of_fragments_error (config : Config) {e : Error} (h : p.fragments i = .error e) :
    (p.block config i (p.openBy i)).rows = .error e := by
  have hfits : ∀ e ∈ p.openOn i, 2 * e.slot < p.marginWidth := openList_fits
  obtain ⟨lead, hlead, _⟩ := jointMargin_painted (joints i (p.openBy i) (p.openOn i)) hfits
  have hupper : p.upperRows config i (p.touching i) (p.openBy i) (p.openOn i) = .error e := by
    rw [upperRows, hlead, h]
    rfl
  simp only [block, marks_eq_touching, openAt_openBy, hupper]

theorem block_of_not_alignedOn (config : Config) (hi : i < p.source.lines.length)
    (h : ¬p.AlignedOn i) :
    ∃ span, (p.block config i (p.openBy i)).rows = .error (.spanOutside span .misaligned) := by
  obtain ⟨line, hline⟩ := Source.exists_line hi
  obtain ⟨slice, hslice, _⟩ := Source.exists_lineSlice hline
  obtain ⟨span, hfragments⟩ := fragments_of_not_alignedOn hline hslice h
  exact ⟨span, block_of_fragments_error config hfragments⟩

end Placement

end Callout

import Callout.Proofs.PaintedCells

namespace Callout

/-- Whether a glyph stands in a column. -/
def HasGlyph (row : List Cell) (column : Nat) (role : Glyph) : Prop :=
  (row[column]?).map Cell.mark = some (.glyph role)

/-- A row after a glyph has been put in some of its columns. -/
def Paints (columns : Nat → Prop) (role : Glyph) (row row' : List Cell) : Prop :=
  ∀ c r, HasGlyph row' c r ↔ columns c ∧ r = role ∨ ¬columns c ∧ HasGlyph row c r

theorem Paints.congr {columns columns' : Nat → Prop} {role : Glyph} {row row' : List Cell}
    (h : Paints columns role row row') (hcolumns : ∀ c, columns c ↔ columns' c) :
    Paints columns' role row row' := by
  intro c r
  rw [h c r, hcolumns]

theorem Paints.refl (role : Glyph) (row : List Cell) : Paints (fun _ => False) role row row := by
  intro c r
  simp

theorem Paints.trans {columns columns' : Nat → Prop} {role : Glyph} {row row' row'' : List Cell}
    (h : Paints columns role row row') (h' : Paints columns' role row' row'') :
    Paints (fun c => columns c ∨ columns' c) role row row'' := by
  intro c r
  rw [h' c r, h c r]
  tauto

theorem putCell_paints {row row' : List Cell} {column : Nat} {role : Glyph} {color : Color}
    (h : putCell row column (.drawn role color) = .ok row') :
    Paints (fun c => c = column) role row row' := by
  unfold putCell at h
  split at h
  next hlt =>
    cases h
    intro c r
    by_cases hc : c = column
    · subst hc
      simp [HasGlyph, hlt, Cell.drawn, eq_comm]
    · simp [HasGlyph, hc, List.getElem?_set_ne (Ne.symm hc)]
  next => cases h

theorem foldlM_paints {β : Type} {f : List Cell → β → Except Error (List Cell)}
    {columns : β → Nat → Prop} {role : Glyph} {xs : List β} {row row' : List Cell}
    (step : ∀ x ∈ xs, ∀ row row', f row x = .ok row' → Paints (columns x) role row row')
    (h : xs.foldlM f row = .ok row') : Paints (fun c => ∃ x ∈ xs, columns x c) role row row' := by
  induction xs generalizing row with
  | nil =>
    obtain rfl : row = row' := Except.ok.inj h
    exact (Paints.refl role row).congr fun c => by simp
  | cons x xs ih =>
    rw [List.foldlM_cons] at h
    obtain ⟨next, hnext, h⟩ := bind_eq_ok_iff.mp h
    have hfirst := step x (by simp) row next hnext
    have hrest := ih (fun y hy => step y (by simp [hy])) h
    exact (hfirst.trans hrest).congr fun c => by simp

theorem hasGlyph_append {lead row : List Cell} {c : Nat} {r : Glyph} :
    HasGlyph (lead ++ row) (lead.length + c) r ↔ HasGlyph row c r := by
  rw [HasGlyph, List.getElem?_append_right (Nat.le_add_right _ _), Nat.add_sub_cancel_left, HasGlyph]

theorem hasGlyph_append_blanks {row blanks : List Cell} (h : ∀ c ∈ blanks, c = .blank) {c : Nat}
    {r : Glyph} : HasGlyph (row ++ blanks) c r ↔ HasGlyph row c r := by
  rcases Nat.lt_or_ge c row.length with hlt | hge
  · rw [HasGlyph, List.getElem?_append_left hlt, HasGlyph]
  · rw [HasGlyph, List.getElem?_append_right hge, HasGlyph, List.getElem?_eq_none hge]
    refine iff_of_false ?_ (by simp)
    intro hglyph
    obtain ⟨cell, hcell, hmark⟩ := Option.map_eq_some_iff.mp hglyph
    rw [h cell (List.mem_of_getElem? hcell)] at hmark
    cases hmark

theorem hasGlyph_widen {row : List Cell} {n c : Nat} {r : Glyph} :
    HasGlyph (widen n row) c r ↔ HasGlyph row c r :=
  hasGlyph_append_blanks fun _ hc => List.eq_of_mem_replicate hc

theorem hasGlyph_trimBlanks {row : List Cell} {c : Nat} {r : Glyph} :
    HasGlyph (trimBlanks row) c r ↔ HasGlyph row c r := by
  obtain ⟨n, hrow⟩ := exists_trimmed_blanks row
  conv_rhs => rw [hrow]
  exact (hasGlyph_append_blanks fun _ hc => List.eq_of_mem_replicate hc).symm

theorem drawUnderline_paints {row row' : List Cell} {t : Target} (h : drawUnderline row t = .ok row') :
    Paints (fun c => t.startColumn ≤ c ∧ c < t.endColumn) .underline row row' := by
  have hcolumns : ∀ c, (∃ x ∈ List.range' t.startColumn (t.endColumn - t.startColumn), c = x) ↔
      t.startColumn ≤ c ∧ c < t.endColumn := by
    intro c
    simp only [exists_eq_right', List.mem_range'_1]
    omega
  have hpaints := (foldlM_paints (fun x _ row row' hx => putCell_paints hx) h).congr hcolumns
  intro c r
  rw [hpaints c r, hasGlyph_widen]

/-- Where underlines and anchors stand: underlines below the labels, except where an anchor stands. -/
theorem underlineCells_glyphs {underlines : Bool} {targets : List Target} {anchors : List Anchor}
    {row : List Cell} (h : underlineCells underlines targets anchors = .ok row) (c : Nat) :
    (HasGlyph row c .underbar ↔ ∃ a ∈ anchors, a.column = c) ∧
    (HasGlyph row c .underline ↔ underlines = true ∧
      (∃ t ∈ targets, t.startColumn ≤ c ∧ c < t.endColumn) ∧ ∀ a ∈ anchors, a.column ≠ c) := by
  have hblank : ∀ r, ¬HasGlyph (widen (lastColumn anchors + 1) []) c r := by
    intro r hglyph
    rw [hasGlyph_widen] at hglyph
    cases hglyph
  have hanchors : ∀ lined, drawAnchors lined anchors = .ok row →
      Paints (fun c => ∃ a ∈ anchors, c = a.column) .underbar lined row :=
    fun lined hdrawn => foldlM_paints (fun a _ row row' ha => putCell_paints ha) hdrawn
  have hlined : ∃ lined, drawAnchors lined anchors = .ok row ∧
      ∀ r, HasGlyph lined c r ↔ underlines = true ∧
        (∃ t ∈ targets, t.startColumn ≤ c ∧ c < t.endColumn) ∧ r = .underline := by
    cases underlines with
    | false => exact ⟨_, h, fun r => iff_of_false (hblank r) (by simp)⟩
    | true =>
      rw [underlineCells, if_pos rfl] at h
      obtain ⟨lined, hlined, h⟩ := bind_eq_ok_iff.mp h
      refine ⟨lined, h, fun r => ?_⟩
      rw [foldlM_paints (fun t _ row row' ht => drawUnderline_paints ht) hlined c r]
      simp [hblank]
  obtain ⟨lined, hdrawn, hlined⟩ := hlined
  have hpaints := hanchors lined hdrawn
  rw [hpaints c .underbar, hpaints c .underline, hlined, hlined]
  constructor
  · simp [eq_comm]
  · simp [eq_comm]
    tauto

/-- A message is to hang from a column of its label, or from where the label starts if none is shown. -/
theorem Target.attachment_range (t : Target) (attach : Attach) :
    t.startColumn ≤ t.attachment attach ∧
      t.attachment attach < max (t.startColumn + 1) t.endColumn := by
  unfold Target.attachment
  cases attach with
  | center =>
    simp only
    omega
  | last =>
    simp only
    omega

theorem Target.attachment_bounds (attach : Attach) {t : Target} (h : t.startColumn < t.endColumn) :
    t.startColumn ≤ t.attachment attach ∧ t.attachment attach < t.endColumn := by
  have hrange := t.attachment_range attach
  omega

section Anchors

variable {attach : Attach} {targets : List Target} {taken : List Nat} {earlier later : List Anchor}
  {a : Anchor}

/-- An anchor has the column that was free when those before it had theirs. -/
theorem anchorFrom_split (h : anchorFrom attach taken targets = earlier ++ a :: later) :
    a.column = leastFree (earlier.map Anchor.column ++ taken) (a.target.attachment attach) := by
  induction targets generalizing taken earlier with
  | nil =>
    rw [anchorFrom] at h
    exact absurd h.symm (by simp)
  | cons t rest ih =>
    rw [anchorFrom] at h
    cases earlier with
    | nil =>
      obtain ⟨rfl, _⟩ := List.cons.inj h
      rfl
    | cons first earlier =>
      obtain ⟨rfl, hrest⟩ := List.cons.inj h
      rw [ih hrest]
      exact leastFree_congr (fun c => by simp [or_left_comm]) _

theorem anchors_split (h : anchors attach targets = earlier ++ a :: later) :
    a.column = leastFree (earlier.map Anchor.column) (a.target.attachment attach) := by
  rw [anchorFrom_split h, List.append_nil]

/-- A message hangs from the column that its label asks for, or further right when the columns in
between are taken by other messages. -/
theorem anchors_column (h : a ∈ anchors attach targets) :
    a.target.attachment attach ≤ a.column ∧
      ∀ c, a.target.attachment attach ≤ c → c < a.column →
        ∃ b ∈ anchors attach targets, b.column = c := by
  obtain ⟨earlier, later, hsplit⟩ := List.append_of_mem h
  have hcolumn := anchors_split hsplit
  refine ⟨hcolumn ▸ le_leastFree _ _, fun c hle hlt => ?_⟩
  rw [hcolumn] at hlt
  obtain ⟨b, hb, hbc⟩ := List.mem_map.mp (mem_of_lt_leastFree hle hlt)
  exact ⟨b, hsplit ▸ List.mem_append_left _ hb, hbc⟩

end Anchors

end Callout

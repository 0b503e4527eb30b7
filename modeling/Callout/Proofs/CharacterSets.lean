import Callout.Proofs.DrawnLook
import Callout.Proofs.RowCharacters
import Mathlib.Data.List.NodupEquivFin

namespace Callout

/-- The character that a set draws for a mark. -/
def Mark.shown (chars : CharSet) : Mark → Char
  | .text c => c
  | .glyph role => chars.glyph role

theorem Cell.shown_eq (chars : CharSet) (cell : Cell) : cell.shown chars = cell.mark.shown chars := by
  unfold Cell.shown Mark.shown
  split <;> simp only [*]

section Marks

variable (colors : Bool)

/-- The marks of a run of cells of one color, with the selections around it. -/
def markRun (run : List Cell) : List Mark :=
  match run.head?.bind Cell.color with
  | none => run.map Cell.mark
  | some color =>
    let style : Style := { foreground := color, enabled := colors }
    style.select.map .text ++ run.map Cell.mark ++ style.reset.map .text

/-- What is written for cells, selections included, before a set is chosen. -/
def markCells (cells : List Cell) : List Mark :=
  (cells.splitBy fun a b => a.color == b.color).flatMap (markRun colors)

def Row.marks (gutter : Nat) (row : Row) : List Mark :=
  markCells colors (row.cells gutter) ++ [.text '\n']

theorem mark_sublist_markRun (run : List Cell) : (run.map Cell.mark).Sublist (markRun colors run) := by
  rw [markRun]
  cases run.head?.bind Cell.color with
  | none => exact List.Sublist.refl _
  | some color => exact (List.sublist_append_right _ _).trans (List.sublist_append_left _ _)

/-- The marks of the cells stand in their order among what is written for them. -/
theorem mark_sublist_markCells (cells : List Cell) :
    (cells.map Cell.mark).Sublist (markCells colors cells) := by
  have hruns : (cells.splitBy fun a b => a.color == b.color).flatten = cells := List.flatten_splitBy _ _
  have hall : ∀ runs : List (List Cell),
      (runs.flatten.map Cell.mark).Sublist (runs.flatMap (markRun colors)) := by
    intro runs
    induction runs with
    | nil => exact List.Sublist.refl _
    | cons run runs ih =>
      rw [List.flatten_cons, List.map_append, List.flatMap_cons]
      exact (mark_sublist_markRun colors run).append ih
  rw [markCells]
  have hcells := hall (cells.splitBy fun a b => a.color == b.color)
  rwa [hruns] at hcells

variable (chars : CharSet)

theorem map_shown_text (text : List Char) : (text.map Mark.text).map (Mark.shown chars) = text := by
  rw [List.map_map]
  exact List.map_id'' (fun _ => rfl) text

theorem map_shown_marks (cells : List Cell) :
    (cells.map Cell.mark).map (Mark.shown chars) = cells.map (Cell.shown chars) := by
  rw [List.map_map]
  exact List.map_congr_left fun cell _ => (cell.shown_eq chars).symm

theorem paintRun_eq_marks (run : List Cell) :
    paintRun chars colors run = (markRun colors run).map (Mark.shown chars) := by
  cases run with
  | nil => rfl
  | cons cell run =>
    rw [paintRun, markRun]
    cases (cell :: run).head?.bind Cell.color with
    | none => exact (map_shown_marks chars _).symm
    | some color =>
      dsimp only
      rw [Style.paint, if_neg (by simp), List.map_append, List.map_append, map_shown_text,
        map_shown_text, map_shown_marks]

theorem paintCells_eq_marks (cells : List Cell) :
    paintCells chars colors cells = (markCells colors cells).map (Mark.shown chars) := by
  rw [paintCells, markCells, List.map_flatMap]
  exact List.flatMap_congr fun run _ => paintRun_eq_marks colors chars run

theorem Row.text_eq_marks (gutter : Nat) (row : Row) :
    row.text chars colors gutter = (row.marks colors gutter).map (Mark.shown chars) := by
  rw [Row.text, Row.marks, paintCells_eq_marks, List.map_append]
  rfl

theorem rowsText_eq_marks (gutter : Nat) (rows : List Row) : rowsText chars colors gutter rows =
    (rows.flatMap (Row.marks colors gutter)).map (Mark.shown chars) := by
  rw [rowsText, List.map_flatMap]
  exact List.flatMap_congr fun row _ => row.text_eq_marks colors chars gutter

end Marks

section Layout

variable {A B : CharSet}

/-- Two texts, in two character sets, that are laid out alike: they are equally long, and at each place
there is one character in both, or the drawn characters of one role. -/
structure SameLayout (A B : CharSet) (text text' : List Char) : Prop where
  length_eq : text.length = text'.length
  alike : ∀ (i : Nat) (c c' : Char), text[i]? = some c → text'[i]? = some c' →
    c = c' ∨ ∃ role, c = A.glyph role ∧ c' = B.glyph role

theorem sameLayout_of_marks (marks : List Mark) :
    SameLayout A B (marks.map (Mark.shown A)) (marks.map (Mark.shown B)) := by
  refine ⟨by rw [List.length_map, List.length_map], ?_⟩
  intro i c c' hc hc'
  rw [List.getElem?_map, Option.map_eq_some_iff] at hc hc'
  obtain ⟨mark, hmark, rfl⟩ := hc
  obtain ⟨mark', hmark', rfl⟩ := hc'
  cases hmark.symm.trans hmark'
  cases mark with
  | text c => exact .inl rfl
  | glyph role => exact .inr ⟨role, rfl, rfl⟩

theorem Mark.shown_eq_lineFeed_iff (chars : CharSet) (mark : Mark) :
    mark.shown chars = '\n' ↔ mark = .text '\n' := by
  cases mark with
  | text c => simp [shown]
  | glyph role => simpa [shown] using (control_ne_glyph (by decide) chars role).symm

/-- No set draws a line feed, so texts of the same marks fall into lines of the same marks. -/
theorem lineParts_of_marks (marks : List Mark) : ∃ parts : List (List Mark), ∀ chars : CharSet,
    lineParts (marks.map (Mark.shown chars)) = parts.map (List.map (Mark.shown chars)) := by
  induction marks with
  | nil => exact ⟨[[]], fun chars => List.splitOn_nil '\n'⟩
  | cons mark marks ih =>
    obtain ⟨parts, hparts⟩ := ih
    by_cases hfeed : mark = .text '\n'
    · refine ⟨[] :: parts, fun chars => ?_⟩
      have hshown := (mark.shown_eq_lineFeed_iff chars).mpr hfeed
      rw [List.map_cons, lineParts, List.splitOn_cons_eq_if_modifyHead, if_pos (by rw [hshown]; rfl),
        ← lineParts, hparts, List.map_cons, List.map_nil]
    · refine ⟨parts.modifyHead (mark :: ·), fun chars => ?_⟩
      have hshown := mt (mark.shown_eq_lineFeed_iff chars).mp hfeed
      rw [List.map_cons, lineParts, List.splitOn_cons_eq_if_modifyHead, if_neg (by simpa using hshown),
        ← lineParts, hparts]
      cases parts <;> rfl

theorem sameLayout_lineParts (marks : List Mark) :
    List.Forall₂ (SameLayout A B) (lineParts (marks.map (Mark.shown A)))
      (lineParts (marks.map (Mark.shown B))) := by
  obtain ⟨parts, hparts⟩ := lineParts_of_marks marks
  rw [hparts, hparts, List.forall₂_map_left_iff, List.forall₂_map_right_iff, List.forall₂_same]
  exact fun part _ => sameLayout_of_marks part

/-- A row that is laid out alike in two sets. Its cells stand in their order at the same places in both
texts, so that every character that is not drawn has one place in both. -/
structure Row.SameLayout (A B : CharSet) (colors : Bool) (gutter : Nat) (row : Row) : Prop where
  texts : Callout.SameLayout A B (row.text A colors gutter) (row.text B colors gutter)
  places : ∃ place : Nat → Nat, StrictMono place ∧ ∀ i cell, (row.cells gutter)[i]? = some cell →
    (row.text A colors gutter)[place i]? = some (cell.shown A) ∧
      (row.text B colors gutter)[place i]? = some (cell.shown B)

theorem Row.sameLayout (A B : CharSet) (colors : Bool) (gutter : Nat) (row : Row) :
    row.SameLayout A B colors gutter := by
  have hsublist : ((row.cells gutter).map Cell.mark).Sublist (row.marks colors gutter) :=
    (mark_sublist_markCells colors _).trans (List.sublist_append_left _ _)
  obtain ⟨place, hplace⟩ := List.sublist_iff_exists_orderEmbedding_getElem?_eq.mp hsublist
  have hshown : ∀ chars i cell, (row.cells gutter)[i]? = some cell →
      (row.text chars colors gutter)[place i]? = some (cell.shown chars) := by
    intro chars i cell hcell
    have hmark := hplace i
    rw [List.getElem?_map, hcell, Option.map_some] at hmark
    rw [Row.text_eq_marks, List.getElem?_map, ← hmark, Option.map_some, ← Cell.shown_eq]
  refine ⟨?_, place, place.strictMono, fun i cell hcell => ⟨hshown A i cell hcell, hshown B i cell hcell⟩⟩
  rw [Row.text_eq_marks, Row.text_eq_marks]
  exact sameLayout_of_marks _

end Layout

/-- The character set of a report decides how it looks and not where anything stands. With one set it is
refused for the cause that it is refused for with another. If it is not refused, it is made of the same
rows, and row by row, as line by line, the texts are laid out alike. -/
theorem render_in_character_sets (catalog : Catalog) (d : Diagnostic) (A B : CharSet) :
    let colors := d.config.colors
    (∃ e, render catalog (d.inLook colors A) = .error e ∧
      render catalog (d.inLook colors B) = .error e) ∨
    ∃ c rows, Canvas.ofDiagnostic catalog d = .ok c ∧ c.rows = .ok rows ∧
      render catalog (d.inLook colors A) = .ok (String.ofList (rowsText A colors c.gutter rows)) ∧
      render catalog (d.inLook colors B) = .ok (String.ofList (rowsText B colors c.gutter rows)) ∧
      (∀ row ∈ rows, row.SameLayout A B colors c.gutter) ∧
      List.Forall₂ (SameLayout A B) (lineParts (rowsText A colors c.gutter rows))
        (lineParts (rowsText B colors c.gutter rows)) := by
  intro colors
  have hA := render_inLook catalog d colors A
  have hB := render_inLook catalog d colors B
  cases hcanvas : Canvas.ofDiagnostic catalog d with
  | error e =>
    rw [hcanvas] at hA hB
    exact .inl ⟨e, hA, hB⟩
  | ok c =>
    rw [hcanvas] at hA hB
    cases hrows : c.rows with
    | error e =>
      simp only [bind, Except.bind, hrows, Except.map] at hA hB
      exact .inl ⟨e, hA, hB⟩
    | ok rows =>
      simp only [bind, Except.bind, hrows, Except.map] at hA hB
      refine .inr ⟨c, rows, rfl, hrows, hA, hB, fun row _ => row.sameLayout A B colors c.gutter, ?_⟩
      rw [rowsText_eq_marks, rowsText_eq_marks]
      exact sameLayout_lineParts _

end Callout

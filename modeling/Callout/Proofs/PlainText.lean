import Callout.Layout.Report
import Mathlib.Data.List.SplitBy

namespace Callout

/-- A diagnostic that is drawn with colors or without. -/
def Diagnostic.withColors (d : Diagnostic) (colors : Bool) : Diagnostic :=
  { d with config := { d.config with colors } }

section Plain

variable (chars : CharSet)

theorem paint_disabled {style : Style} (h : style.enabled = false) (text : List Char) :
    style.paint text = text := by
  have hselect : style.select = [] := by rw [Style.select, h, if_neg (by simp)]
  have hreset : style.reset = [] := by rw [Style.reset, h, if_neg (by simp)]
  unfold Style.paint
  split
  next hempty => exact (List.isEmpty_iff.mp hempty).symm
  next => rw [hselect, hreset, List.nil_append, List.append_nil]

theorem paintRun_plain (run : List Cell) : paintRun chars false run = run.map (Cell.shown chars) := by
  rw [paintRun]
  cases run.head?.bind Cell.color with
  | none => rfl
  | some color => exact paint_disabled rfl _

/-- Without colors a row of cells is shown cell by cell. -/
theorem paintCells_plain (cells : List Cell) :
    paintCells chars false cells = cells.map (Cell.shown chars) := by
  have hruns : paintRun chars false = List.map (Cell.shown chars) := funext (paintRun_plain chars)
  rw [paintCells, hruns, List.flatMap_def, ← List.map_flatten, List.flatten_splitBy]

theorem map_shown_ofText (color : Option Color) (text : List Char) :
    (Cell.ofText color text).map (Cell.shown chars) = text := by
  rw [Cell.ofText, List.map_map]
  exact List.map_id'' (fun _ => rfl) text

theorem map_shown_frameGlyphs (roles : List Glyph) :
    (frameGlyphs roles).map (Cell.shown chars) = roles.map chars.glyph := by
  rw [frameGlyphs, List.map_map]
  rfl

namespace Row

/-- What stands before the bar of a row. -/
def gutterShown (gutter : Nat) (row : Row) : List Char :=
  match row.role with
  | .header | .bareNote _ => []
  | .footer => List.replicate gutter (chars.glyph .hbar)
  | role => gutterText gutter role.number?

/-- What stands from the bar of a row on. A header and a note without a frame have no bar. -/
def bodyShown (row : Row) : List Char :=
  let body := row.body.map (Cell.shown chars)
  match row.role with
  | .header | .bareNote _ => body
  | .border => [chars.glyph .ltop, chars.glyph .hbar, chars.glyph .lbox] ++ body ++
      [chars.glyph .rbox]
  | .footer => [chars.glyph .rbot]
  | role => chars.glyph role.bar :: if body.isEmpty then [] else ' ' :: body

theorem text_plain (gutter : Nat) (row : Row) : row.text chars false gutter =
    row.gutterShown chars gutter ++ row.bodyShown chars ++ ['\n'] := by
  obtain ⟨role, body⟩ := row
  have hbody : (if body.isEmpty then [] else Cell.blank :: body).map (Cell.shown chars) =
      if (body.map (Cell.shown chars)).isEmpty then [] else ' ' :: body.map (Cell.shown chars) := by
    rw [List.isEmpty_map]
    split <;> rfl
  rw [Row.text, paintCells_plain]
  cases role with
  | border =>
    simp only [cells, gutterShown, bodyShown, List.map_append, map_shown_frameGlyphs,
      List.map_replicate, List.map_cons, List.map_nil, List.append_assoc]
    rfl
  | _ =>
    simp only [cells, gutterShown, bodyShown, List.map_append, hbody, map_shown_ofText,
      map_shown_frameGlyphs, List.map_replicate, List.map_cons, List.map_nil, List.append_assoc,
      List.nil_append, List.cons_append]

end Row

end Plain

end Callout

import Callout.Glyph
import Callout.Style
import Callout.Text.Blank

namespace Callout

/-- A character of some text, or a drawn one by its role. The character of a role is chosen only when
the row becomes text. -/
inductive Mark where
  | text (c : Char)
  | glyph (role : Glyph)
  deriving DecidableEq

/-- One column of a row. A cell without color is shown in the terminal's own rendition. -/
structure Cell where
  mark : Mark
  color : Option Color
  deriving DecidableEq

namespace Cell

def blank : Cell := ⟨.text ' ', none⟩

def drawn (role : Glyph) (color : Color) : Cell := ⟨.glyph role, some color⟩

def ofText (color : Option Color) (text : List Char) : List Cell :=
  text.map fun c => ⟨.text c, color⟩

def plain (text : String) : List Cell :=
  ofText none text.toList

def shown (chars : CharSet) (cell : Cell) : Char :=
  match cell.mark with
  | .text c => c
  | .glyph role => chars.glyph role

end Cell

/-- The color of borders, line numbers and code without a label. -/
def gutterColor : Color := .basic .brightBlack

/-- A row with a cell in one of the columns that it has. -/
def putCell (row : List Cell) (column : Nat) (cell : Cell) : Except Error (List Cell) :=
  if column < row.length then .ok (row.set column cell) else .error (.rowOverflow column)

/-- A row with empty columns at its end, up to a width. -/
def widen (width : Nat) (row : List Cell) : List Cell :=
  row ++ List.replicate (width - row.length) .blank

/-- A row without the empty columns at its end. -/
def trimBlanks (cells : List Cell) : List Cell :=
  Text.dropEndWhile (· == .blank) cells

/-- A run of cells of one color, as text. -/
def paintRun (chars : CharSet) (colors : Bool) (run : List Cell) : List Char :=
  let text := run.map (Cell.shown chars)
  match run.head?.bind Cell.color with
  | none => text
  | some color => Style.paint { foreground := color, enabled := colors } text

/-- Cells as text, a style for each run of cells of one color. -/
def paintCells (chars : CharSet) (colors : Bool) (cells : List Cell) : List Char :=
  (cells.splitBy fun a b => a.color == b.color).flatMap (paintRun chars colors)

end Callout

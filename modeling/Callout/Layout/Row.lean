import Callout.Layout.Cell

namespace Callout

/-- What a row of a report is for. Lines are counted from zero, labels in sorted order, notes in
supplied order. -/
inductive Role where
  | header
  | border
  | code (line : Nat)
  | underlines (line : Nat)
  | message (line label : Nat)
  | spacer (line : Nat)
  | closing (line label : Nat)
  | gap
  | empty
  | note (index : Nat)
  | bareNote (index : Nat)
  | footer
  deriving DecidableEq, Repr

namespace Role

/-- The line number in the gutter. -/
def number? : Role → Option Nat
  | code line => some (line + 1)
  | _ => none

def bar : Role → Glyph
  | gap => .vbarGap
  | _ => .vbar

end Role

/-- A row without its frame. -/
structure Row where
  role : Role
  body : List Cell
  deriving DecidableEq

/-- The gutter of a row: blanks, or a number to the right before one blank. -/
def gutterText (gutter : Nat) : Option Nat → List Char
  | none => List.replicate gutter ' '
  | some n =>
    let digits := (toString n).toList
    List.replicate (gutter - 1 - digits.length) ' ' ++ digits ++ [' ']

def frameGlyphs (roles : List Glyph) : List Cell :=
  roles.map (Cell.drawn · gutterColor)

namespace Row

/-- All cells of a row: header and bare notes stand alone, the border opens the frame, the footer
closes it, and every other row has the gutter and a bar before its body. -/
def cells (gutter : Nat) (row : Row) : List Cell :=
  match row.role with
  | .header | .bareNote _ => row.body
  | .border =>
    List.replicate gutter .blank ++ frameGlyphs [.ltop, .hbar, .lbox] ++ row.body ++
      frameGlyphs [.rbox]
  | .footer => frameGlyphs (List.replicate gutter .hbar ++ [.rbot])
  | role =>
    Cell.ofText (some gutterColor) (gutterText gutter role.number?) ++ frameGlyphs [role.bar] ++
      if row.body.isEmpty then [] else .blank :: row.body

def text (chars : CharSet) (colors : Bool) (gutter : Nat) (row : Row) : List Char :=
  paintCells chars colors (row.cells gutter) ++ ['\n']

end Row

def rowsText (chars : CharSet) (colors : Bool) (gutter : Nat) (rows : List Row) : List Char :=
  rows.flatMap (Row.text chars colors gutter)

end Callout

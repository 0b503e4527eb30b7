import Callout.Diagnostic
import Callout.Layout.Margin

namespace Callout

/-- A label on one line of code: its marked part in bytes, and the columns of it that show. -/
structure Target where
  index : Nat
  label : Label
  span : Span
  startColumn : Nat
  endColumn : Nat

namespace Target

/-- The column that a message would hang from if it were free. -/
def attachment (attach : Attach) (t : Target) : Nat :=
  let width := max 1 (t.endColumn - t.startColumn)
  match attach with
  | .last => t.startColumn + width - 1
  | .center => t.startColumn + width / 2

/-- Longer targets come first, and of equally long ones the later. -/
def drawnBefore (a b : Target) : Bool :=
  b.span.length < a.span.length || (a.span.length == b.span.length && b.index ≤ a.index)

end Target

/-- A target with the column that its message hangs from. -/
structure Anchor where
  target : Target
  column : Nat

/-- Gives each target the least free column at or after its attachment. -/
def anchorFrom (attach : Attach) (taken : List Nat) : List Target → List Anchor
  | [] => []
  | t :: rest =>
    let column := leastFree taken (t.attachment attach)
    ⟨t, column⟩ :: anchorFrom attach (column :: taken) rest

/-- The anchors of all targets, given out in the order in which the targets end. -/
def anchors (attach : Attach) (targets : List Target) : List Anchor :=
  anchorFrom attach [] (targets.mergeSort fun a b => a.span.stop ≤ b.span.stop)

def lastColumn (anchors : List Anchor) : Nat :=
  (anchors.map Anchor.column).foldr max 0

/-- Draws an underline below a target, on a row that grows as needed. -/
def drawUnderline (row : List Cell) (t : Target) : Except Error (List Cell) :=
  (List.range' t.startColumn (t.endColumn - t.startColumn)).foldlM
    (fun row column => putCell row column (.drawn .underline t.label.color))
    (widen t.endColumn row)

/-- Draws an underline below each target, shorter targets over longer ones. -/
def drawUnderlines (row : List Cell) (targets : List Target) : Except Error (List Cell) :=
  (targets.mergeSort Target.drawnBefore).foldlM drawUnderline row

def drawAnchors (row : List Cell) (anchors : List Anchor) : Except Error (List Cell) :=
  anchors.foldlM (fun row a => putCell row a.column (.drawn .underbar a.target.label.color)) row

/-- The row below the code: underlines, if they are wanted, and anchors. -/
def underlineCells (underlines : Bool) (targets : List Target) (anchors : List Anchor) :
    Except Error (List Cell) := do
  let row := widen (lastColumn anchors + 1) []
  let row ← if underlines then drawUnderlines row targets else pure row
  drawAnchors row anchors

/-- The last column of the connector that leads to a message. It passes every anchor that still
waits further right. -/
def connectorStop (anchor : Anchor) (waiting : List Anchor) : Nat :=
  ((waiting.filter fun w => anchor.column < w.column).map fun w => w.column + 1).foldr max
    (anchor.column + 2)

/-- Draws a stretch of a connector in a column, unless something stands there. -/
def drawStretch (color : Color) (row : List Cell) (column : Nat) : Except Error (List Cell) :=
  if row[column]? = some .blank then putCell row column (.drawn .hbar color)
  else if column < row.length then .ok row
  else .error (.rowOverflow column)

/-- The row of a message while the messages of `waiting` are still to come. -/
def messageCells (anchor : Anchor) (waiting : List Anchor) : Except Error (List Cell) := do
  let color := anchor.target.label.color
  let stop := connectorStop anchor waiting
  let row ← waiting.foldlM
    (fun row w => putCell row w.column (.drawn .vbar w.target.label.color)) (widen (stop + 1) [])
  let row ← putCell row anchor.column (.drawn .lbot color)
  let row ← (List.range' (anchor.column + 1) (stop - anchor.column)).foldlM (drawStretch color) row
  return row ++ .blank :: Cell.plain anchor.target.label.message

def messageRows : List Anchor → Except Error (List (Anchor × List Cell))
  | [] => .ok []
  | a :: waiting => do
    let cells ← messageCells a waiting
    let rows ← messageRows waiting
    return (a, cells) :: rows

end Callout

import Callout.Error
import Callout.Layout.Cell

namespace Callout

/-- A search for a number at or after `low` that is not taken, in at most `fuel` steps. -/
def seekFree (taken : List Nat) (low : Nat) : (fuel : Nat) → Nat
  | 0 => low
  | fuel + 1 => if low ∈ taken then seekFree taken (low + 1) fuel else low

/-- The least number at or after `low` that is not taken. -/
def leastFree (taken : List Nat) (low : Nat) : Nat :=
  seekFree taken low taken.length

/-- A label of several lines whose connector is being drawn. Slot `s` is column `2 * s` of a margin,
and the last two columns of a margin hold an arrow and a blank. -/
structure OpenLabel where
  index : Nat
  slot : Nat
  color : Color
  endLine : Nat
  deriving DecidableEq

/-- Opens a label in the least slot that is not in use. -/
def openLabel (active : List OpenLabel) (index : Nat) (color : Color) (endLine : Nat) : OpenLabel :=
  ⟨index, leastFree (active.map OpenLabel.slot) 0, color, endLine⟩

/-- The open label whose connector runs in a column. -/
def connectorAt (active : List OpenLabel) (column : Nat) : Option OpenLabel :=
  active.find? fun e => 2 * e.slot == column

/-- A column of a margin in which nothing begins or ends. -/
def marginCell (active : List OpenLabel) (column : Nat) : Cell :=
  match connectorAt active column with
  | some e => .drawn .vbar e.color
  | none => .blank

/-- Every connector has to have a column. -/
def checkMargin (width : Nat) (active : List OpenLabel) : Except Error Unit :=
  match active.find? fun e => width ≤ 2 * e.slot with
  | some e => .error (.marginOverflow (2 * e.slot))
  | none => .ok ()

/-- The margin of a row in which nothing begins or ends. -/
def margin (width : Nat) (active : List OpenLabel) : Except Error (List Cell) := do
  checkMargin width active
  return (List.range width).map (marginCell active)

/-- A place where a connector begins or ends at the code. -/
structure Joint where
  slot : Nat
  glyph : Glyph
  color : Color

/-- The joint with the least slot, from `first` on. -/
def leftmost (first : Joint) (joints : List Joint) : Joint :=
  joints.foldl (fun best j => if j.slot < best.slot then j else best) first

/-- The last joint at or before a column, `first` if there is none. -/
def jointBefore (first : Joint) (joints : List Joint) (column : Nat) : Joint :=
  (joints.filter fun j => 2 * j.slot ≤ column).foldl
    (fun best j => if best.slot < j.slot then j else best) first

/-- A column of a margin whose joints reach over to the code. A bar runs from the leftmost joint
to the arrow, in the color of the joint before it, and crosses the connectors in between. -/
def jointCell (width : Nat) (active : List OpenLabel) (first : Joint) (joints : List Joint)
    (column : Nat) : Cell :=
  if column + 2 = width then .drawn .rarrow (jointBefore first joints (width - 3)).color
  else if column < 2 * first.slot ∨ width < column + 2 then marginCell active column
  else
    match joints.find? fun j => 2 * j.slot == column with
    | some j => .drawn j.glyph j.color
    | none =>
      match connectorAt active column with
      | some e => .drawn .xbar e.color
      | none => .drawn .hbar (jointBefore first joints column).color

/-- The margin of a row of code with the given joints. -/
def jointMargin (width : Nat) (active : List OpenLabel) : List Joint → Except Error (List Cell)
  | [] => margin width active
  | j :: rest => do
    checkMargin width active
    return (List.range width).map (jointCell width active (leftmost j rest) (j :: rest))

/-- A column of a margin in which the connector of `entry` ends at its message. -/
def closingCell (width : Nat) (active : List OpenLabel) (entry : OpenLabel) (column : Nat) : Cell :=
  if column = 2 * entry.slot then .drawn .lbot entry.color
  else if column < 2 * entry.slot ∨ width ≤ column + 1 then marginCell active column
  else
    match connectorAt active column with
    | some e => .drawn .xbar e.color
    | none => .drawn .hbar entry.color

/-- The margin of a row in which the connector of `entry`, no longer in `active`, ends. -/
def closingMargin (width : Nat) (active : List OpenLabel) (entry : OpenLabel) :
    Except Error (List Cell) := do
  checkMargin width (active ++ [entry])
  return (List.range width).map (closingCell width active entry)

end Callout

import Callout.Fragment
import Callout.Layout.Pointer
import Callout.Layout.Row

namespace Callout

/-- Rows, or the reason that there are none, and the labels that are open afterwards. A line that
cannot be drawn leaves the labels open that it opened. -/
structure Drawn where
  active : List OpenLabel
  rows : Except Error (List Row)

namespace Placement

/-- The labels of several lines that start on a line, by index, out of those marked on it. -/
def starting (p : Placement) (index : Int) (marks : List (Nat × Span)) : List (Nat × Placed) :=
  marks.filterMap fun m =>
    (p.labels[m.1]?).bind fun l =>
      if l.isMultiline ∧ (l.startLine : Int) = index then some (m.1, l) else none

def push (active : List OpenLabel) (m : Nat × Placed) : List OpenLabel :=
  active ++ [openLabel active m.1 m.2.label.color m.2.endLine]

/-- Opens the labels of several lines that start on a line. -/
def openAt (p : Placement) (index : Int) (marks : List (Nat × Span)) (active : List OpenLabel) :
    List OpenLabel :=
  (p.starting index marks).foldl push active

def endingAt (index : Int) (active : List OpenLabel) : List OpenLabel :=
  active.filter fun e => (e.endLine : Int) == index

/-- The joints of a line: labels in `before` that end there, and the labels opened since. -/
def joints (index : Int) (before active : List OpenLabel) : List Joint :=
  (endingAt index before).map (fun e => ⟨e.slot, .lcross, e.color⟩) ++
    (active.drop before.length).map fun e => ⟨e.slot, .ltop, e.color⟩

/-- The code of a line, in the colors of its fragments. -/
def codeCells (fragments : List Fragment) : List Cell :=
  fragments.flatMap fun f =>
    Cell.ofText (some (if f.color = .default then gutterColor else f.color)) f.display

/-- The labels that lie on one line, out of those marked on it. -/
def singles (p : Placement) (marks : List (Nat × Span)) : List ((Nat × Span) × Label) :=
  marks.filterMap fun m =>
    (p.labels[m.1]?).bind fun l => if l.isMultiline then none else some (m, l.label)

/-- The column that a place in a line shows in. -/
def columnAt (p : Placement) (line : Line) (offset : Nat) : Except Error Nat := do
  return (← p.source.textBetween line.byteOffset (line.byteOffset + offset : Nat)).length

/-- A label that lies on one line, with the columns it shows in. -/
def target (p : Placement) (line : Line) (visible : Nat) (single : (Nat × Span) × Label) :
    Except Error Target := do
  let ((i, span), label) := single
  return ⟨i, label, span, ← p.columnAt line span.start, min (← p.columnAt line span.stop) visible⟩

/-- The labels that lie on one line, with the columns they show in. -/
def targets (p : Placement) (index : Int) (marks : List (Nat × Span)) :
    Except Error (List Target) := do
  let line ← p.source.line index
  let visible := (dropTerminators (← p.source.lineSlice index)).length
  (p.singles marks).mapM (p.target line visible)

/-- The underline row and the messages of a line. -/
def pointerRows (config : Config) (width : Nat) (active : List OpenLabel) (line : Nat)
    (targets : List Target) : Except Error (List Row) := do
  if targets.isEmpty then return []
  let anchors := anchors config.attach targets
  let underlines ← underlineCells config.underlines targets anchors
  let lead ← margin width active
  let messages ← messageRows anchors.reverse
  return ⟨.underlines line, trimBlanks (lead ++ underlines)⟩ ::
    messages.map fun (a, cells) => ⟨.message line a.target.index, trimBlanks (lead ++ cells)⟩

/-- The row above those that close labels. -/
def spacerRow (width : Nat) (active : List OpenLabel) (line : Nat) : Except Error (List Row) := do
  if (endingAt line active).isEmpty then return []
  return [⟨.spacer line, trimBlanks (← margin width active)⟩]

/-- The rows of a line down to those that close labels. -/
def upperRows (p : Placement) (config : Config) (index : Int) (marks : List (Nat × Span))
    (before active : List OpenLabel) : Except Error (List Row) := do
  let width := p.marginWidth
  let line := index.toNat
  let lead ← jointMargin width active (joints index before active)
  let fragments ← p.fragments index
  let targets ← p.targets index marks
  let pointers ← pointerRows config width active line targets
  let spacer ← spacerRow width active line
  return ⟨.code line, trimBlanks (lead ++ codeCells fragments)⟩ :: (pointers ++ spacer)

def messageOf (p : Placement) (index : Nat) : String :=
  (p.labels[index]?).elim "" fun l => l.label.message

/-- The row in which a label that is no longer in `active` ends. -/
def closingRow (p : Placement) (line : Nat) (active : List OpenLabel) (e : OpenLabel) :
    Except Error Row := do
  let lead ← closingMargin p.marginWidth active e
  return ⟨.closing line e.index, trimBlanks (lead ++ Cell.plain (p.messageOf e.index))⟩

/-- Closes labels one by one, each with a row once it is no longer open. -/
def closeAll (p : Placement) (line : Nat) (active : List OpenLabel) : List OpenLabel → Drawn
  | [] => ⟨active, .ok []⟩
  | e :: rest =>
    let active := active.erase e
    match p.closingRow line active e with
    | .error cause => ⟨active, .error cause⟩
    | .ok row =>
      let after := p.closeAll line active rest
      ⟨after.active, after.rows.map fun rows => row :: rows⟩

def block (p : Placement) (config : Config) (index : Int) (before : List OpenLabel) : Drawn :=
  match p.marks index with
  | .error cause => ⟨before, .error cause⟩
  | .ok marks =>
    let active := p.openAt index marks before
    match p.upperRows config index marks before active with
    | .error cause => ⟨active, .error cause⟩
    | .ok upper =>
      let closed := p.closeAll index.toNat active (endingAt index active).reverse
      ⟨closed.active, closed.rows.map fun closing => upper ++ closing⟩

/-- The row that stands for lines left out. -/
def gapRow (p : Placement) (active : List OpenLabel) : Except Error Row := do
  return ⟨.gap, trimBlanks (← margin p.marginWidth active)⟩

/-- Draws lines in order, with a gap row before a line that does not follow `previous`. -/
def blocks (p : Placement) (config : Config) (previous : Option Nat) :
    List Nat → List OpenLabel → Drawn
  | [], active => ⟨active, .ok []⟩
  | line :: rest, active =>
    let skips := config.ellipsis && previous.any fun l => line != l + 1
    match if skips then (p.gapRow active).map fun row => [row] else .ok [] with
    | .error e => ⟨active, .error e⟩
    | .ok gap =>
      let drawn := p.block config line active
      match drawn.rows with
      | .error e => ⟨drawn.active, .error e⟩
      | .ok rows =>
        let after := p.blocks config (some line) rest drawn.active
        ⟨after.active, after.rows.map fun more => gap ++ rows ++ more⟩

def content (p : Placement) (config : Config) (active : List OpenLabel) : Drawn :=
  p.blocks config none p.relevantLines active

end Placement

end Callout

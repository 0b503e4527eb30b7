import Callout.Catalog
import Callout.Layout.Block

namespace Callout

/-- The parts of a text between its line feeds. -/
def lineParts (text : List Char) : List (List Char) :=
  text.splitOn '\n'

/-- Rows of a note: the category before the first part of the message, blanks before the others.
`lead` stands before the category. -/
def noteRows (role : Role) (lead : List Char) (note : Note) : List Row :=
  let category := note.category.toList
  let indent := List.replicate (lead.length + category.length + 2) ' '
  match lineParts note.message.toList with
  | [] => []
  | first :: rest =>
    ⟨role, Cell.ofText none lead ++ Cell.ofText (some note.color) category ++
        Cell.ofText none ([':', ' '] ++ first)⟩ ::
      rest.map fun part => ⟨role, Cell.ofText none (indent ++ part)⟩

/-- A diagnostic with its labels placed, ready to be drawn. -/
structure Canvas where
  diagnostic : Diagnostic
  placement : Option Placement

namespace Canvas

/-- Places the labels of a diagnostic on its source. Without labels no source is needed. -/
def ofDiagnostic (catalog : Catalog) (d : Diagnostic) : Except Error Canvas :=
  if d.labels.isEmpty then .ok ⟨d, none⟩
  else do
    let source ← catalog.get d.sourceId
    let placement ← Placement.ofLabels source d.labels
    return ⟨d, some placement⟩

def gutter (c : Canvas) : Nat :=
  c.placement.elim 0 Placement.gutterWidth

def marginWidth (c : Canvas) : Nat :=
  c.placement.elim 0 Placement.marginWidth

def header (c : Canvas) : Row :=
  let d := c.diagnostic
  let code :=
    match d.code with
    | some code => if code.isEmpty then [] else ['['] ++ code.toList ++ [']']
    | none => []
  ⟨.header, Cell.ofText (some (.basic d.severity.color)) (d.severity.name.toList ++ code) ++
    Cell.ofText none ([':', ' '] ++ d.message.toList)⟩

def locus (c : Canvas) : Except Error Locus :=
  match c.placement with
  | none => .error .noLabels
  | some p => p.locus

def border (c : Canvas) : Except Error Row := do
  let locus ← c.locus
  return ⟨.border, Cell.plain s!"{c.diagnostic.sourceId.shown}:{locus.line}:{locus.column}"⟩

def footer : Row := ⟨.footer, []⟩

/-- A row with nothing in it. -/
def emptyRow : Row := ⟨.empty, []⟩

def notes (c : Canvas) : List Row :=
  c.diagnostic.notes.zipIdx.flatMap fun (note, i) => noteRows (.note i) [] note

def bareNotes (c : Canvas) : List Row :=
  c.diagnostic.notes.zipIdx.flatMap fun (note, i) =>
    noteRows (.bareNote i) [' ', ' ', '=', ' '] note

def line (c : Canvas) (index : Int) (active : List OpenLabel) : Drawn :=
  match c.placement with
  | none => ⟨active, .error .noSnippet⟩
  | some p => p.block c.diagnostic.config index active

def content (c : Canvas) (active : List OpenLabel) : Drawn :=
  match c.placement with
  | none => ⟨active, .error .noSnippet⟩
  | some p => p.content c.diagnostic.config active

def rows (c : Canvas) : Except Error (List Row) :=
  match c.placement with
  | none => .ok (c.header :: c.bareNotes)
  | some _ => do
    let border ← c.border
    let content ← (c.content []).rows
    return [c.header, border] ++ content ++ [emptyRow] ++ c.notes ++ [footer]

def text (c : Canvas) (rows : List Row) : List Char :=
  rowsText c.diagnostic.config.charSet c.diagnostic.config.colors c.gutter rows

end Canvas

/-- The report of a diagnostic. -/
def render (catalog : Catalog) (d : Diagnostic) : Except Error String := do
  let canvas ← Canvas.ofDiagnostic catalog d
  let rows ← canvas.rows
  return String.ofList (canvas.text rows)

end Callout

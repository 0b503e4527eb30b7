import Callout.Placement

namespace Callout

/-- A piece of a line that is drawn in one color. -/
structure Fragment where
  text : List Char
  span : Span
  owner : Option Nat
  color : Color
  isMultiline : Bool
  isMultilineStart : Bool

namespace Fragment

/-- The text of a piece as it is shown. -/
def display (f : Fragment) : List Char :=
  dropTerminators f.text

end Fragment

/-- The places where a line of `byteLen` bytes is cut: its ends and the bounds of all marks. -/
def cuts (byteLen : Nat) (marks : List (Nat × Span)) : List Nat :=
  (List.range (byteLen + 1)).filter fun cut =>
    cut == 0 || cut == byteLen || marks.any fun m => m.2.start == cut || m.2.stop == cut

/-- The pieces between neighbouring cuts, by their bounds. -/
def pieces (cuts : List Nat) : List (Nat × Nat) :=
  cuts.zip cuts.tail

/-- The shorter of two marks, the first one when they are equally long. -/
def shorter (best : Option (Nat × Span)) (mark : Nat × Span) : Option (Nat × Span) :=
  match best with
  | none => some mark
  | some b => if mark.2.length < b.2.length then some mark else some b

/-- The shortest mark that covers a piece, the first of several. -/
def innermost (marks : List (Nat × Span)) (piece : Nat × Nat) : Option (Nat × Span) :=
  (marks.filter fun m => m.2.covers piece.1 piece.2).foldl shorter none

namespace Placement

/-- The piece of a line, with the text and the label that it shows. -/
def fragment (p : Placement) (index : Int) (line : Line) (marks : List (Nat × Span))
    (piece : Nat × Nat) : Except Error Fragment := do
  let owner := (innermost marks piece).map Prod.fst
  let placed := owner.bind fun i => p.labels[i]?
  let text ← p.source.textBetween (line.byteOffset + piece.1 : Nat) (line.byteOffset + piece.2 : Nat)
  let span ← Span.ofBounds piece.1 piece.2
  let isMultiline := placed.any Placed.isMultiline
  return {
    text, span, owner, isMultiline
    color := (placed.map fun l => l.label.color).getD .default
    isMultilineStart := isMultiline && placed.any fun l => (l.startLine : Int) == index }

/-- The pieces of a line, from its start to its end. -/
def fragments (p : Placement) (index : Int) : Except Error (List Fragment) := do
  let line ← p.source.line index
  let marks ← p.marks index
  (pieces (cuts line.byteLen marks)).mapM (p.fragment index line marks)

end Placement

end Callout

import Callout.Diagnostic
import Callout.Source.Lookup

namespace Callout

/-- A label with the lines that hold its first and its last byte. -/
structure Placed where
  label : Label
  startLine : Nat
  endLine : Nat

namespace Placed

/-- Whether a label reaches over several lines. -/
def isMultiline (p : Placed) : Bool :=
  p.startLine != p.endLine

/-- Whether a label reaches a line, from its first to its last. -/
def reaches (p : Placed) (line : Nat) : Bool :=
  p.startLine ≤ line && line ≤ p.endLine

end Placed

/-- Labels in the order of their starts; labels that start together keep their order. -/
def sortLabels (labels : List Label) : List Label :=
  labels.mergeSort fun a b => a.span.start ≤ b.span.start

theorem sortLabels_sorted (labels : List Label) :
    (sortLabels labels).Pairwise fun a b => a.span.start ≤ b.span.start := by
  have sorted := @List.pairwise_mergeSort Label (fun a b => a.span.start ≤ b.span.start)
    (fun a b c => by simp only [decide_eq_true_eq]; omega)
    (fun a b => by simp only [Bool.or_eq_true, decide_eq_true_eq]; omega) labels
  exact sorted.imp of_decide_eq_true

namespace Source

/-- The part of a span from line `startLine` to `endLine` that is marked on a line, relative to the
start of that line. A span of several lines is marked on the first and the last of them only. -/
def mark? (s : Source) (index : Int) (span : Span) (startLine endLine : Nat) :
    Except Error (Option Span) :=
  if index ≠ startLine ∧ index ≠ endLine then .ok none
  else do
    let line ← s.line index
    let first := if index = startLine then (span.start : Int) - line.byteOffset else 0
    let last := if index = endLine then (span.stop : Int) - line.byteOffset else line.byteLen
    return some (← Span.ofBounds first last)

/-- The part of a span that is marked on a line. -/
def localSpan (s : Source) (index : Int) (span : Span) : Except Error (Option Span) := do
  let (startLine, endLine) ← s.spanLines span
  s.mark? index span startLine endLine

end Source

/-- Finds the lines of a label. -/
def place (source : Source) (label : Label) : Except Error Placed := do
  let (startLine, endLine) ← source.spanLines label.span
  return ⟨label, startLine, endLine⟩

theorem place_eq_ok {source : Source} {label : Label} {l : Placed} (h : place source label = .ok l) :
    l.label = label ∧ source.spanLines l.label.span = .ok (l.startLine, l.endLine) := by
  unfold place at h
  cases hl : source.spanLines label.span with
  | error e => rw [hl] at h; cases h
  | ok lines => rw [hl] at h; cases h; exact ⟨rfl, hl⟩

/-- Placed labels keep their order and lie on the lines of their spans. -/
theorem mapM_place_eq_ok {source : Source} {labels : List Label} {placed : List Placed}
    (h : labels.mapM (place source) = .ok placed) :
    placed.map Placed.label = labels ∧
      ∀ l ∈ placed, source.spanLines l.label.span = .ok (l.startLine, l.endLine) := by
  induction labels generalizing placed with
  | nil => cases h; simp
  | cons label labels ih =>
    rw [List.mapM_cons] at h
    cases hl : place source label with
    | error e => rw [hl] at h; cases h
    | ok l =>
      cases hr : labels.mapM (place source) with
      | error e => rw [hl, hr] at h; cases h
      | ok rest =>
        rw [hl, hr] at h
        cases h
        obtain ⟨hlabel, hlines⟩ := place_eq_ok hl
        obtain ⟨hlabels, hrest⟩ := ih hr
        refine ⟨by simp [hlabel, hlabels], ?_⟩
        intro m hm
        cases hm with
        | head => exact hlines
        | tail _ hm => exact hrest m hm

/-- The labels of one diagnostic, in the order of their starts, on the lines of their source. -/
structure Placement where
  source : Source
  labels : List Placed
  lines_eq : ∀ l ∈ labels, source.spanLines l.label.span = .ok (l.startLine, l.endLine)
  sorted : labels.Pairwise fun a b => a.label.span.start ≤ b.label.span.start

namespace Placement

/-- Places all labels; the first in order that does not fit its source is reported. -/
def ofLabels (source : Source) (labels : List Label) : Except Error Placement :=
  match h : (sortLabels labels).mapM (place source) with
  | .error e => .error e
  | .ok placed => .ok {
      source
      labels := placed
      lines_eq := (mapM_place_eq_ok h).2
      sorted := by
        have sorted := sortLabels_sorted labels
        rwa [← (mapM_place_eq_ok h).1, List.pairwise_map] at sorted }

/-- The lines that hold the start or the end of some label, ascending. -/
def relevantLines (p : Placement) : List Nat :=
  (List.range p.source.lines.length).filter fun line =>
    p.labels.any fun l => l.startLine == line || l.endLine == line

/-- The digits of the greatest line number shown, and a blank on either side. -/
def gutterWidth (p : Placement) : Nat :=
  match p.relevantLines.getLast? with
  | some line => (toString (line + 1)).length + 2
  | none => 0

def multiline (p : Placement) : List Placed :=
  p.labels.filter Placed.isMultiline

/-- The greatest number of labels of several lines that share a line on which one of them starts. -/
def depth (p : Placement) : Nat :=
  (p.multiline.map fun l => p.multiline.countP fun m => m.reaches l.startLine).foldr max 0

/-- The width of the margin: two columns for each label that may be open, then arrow and blank. -/
def marginWidth (p : Placement) : Nat :=
  if p.depth = 0 then 0 else 2 * p.depth + 2

/-- The labels marked on a line, by index, with the marked parts. -/
def marks (p : Placement) (index : Int) : Except Error (List (Nat × Span)) := do
  let found ← p.labels.zipIdx.mapM fun (l, i) => do
    return (← p.source.mark? index l.label.span l.startLine l.endLine).map (i, ·)
  return found.filterMap id

/-- The labels marked on a line, as a plain list. -/
def touching (p : Placement) (index : Int) : List (Nat × Span) :=
  (p.marks index).toOption.getD []

def locus (p : Placement) : Except Error Locus :=
  match p.labels with
  | [] => .error .noLabels
  | first :: _ => p.source.locus first.label.span

end Placement

end Callout

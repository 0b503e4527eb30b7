import Callout.Proofs.DrawnLines
import Callout.Proofs.RenamedLabels
import Callout.Proofs.ShiftedSource

namespace Callout

def OpenLabel.shift (k : Nat) (e : OpenLabel) : OpenLabel :=
  { e with endLine := e.endLine + k }

def Target.shift (n : Nat) (t : Target) : Target :=
  { t with label := t.label.shift n }

theorem Placed.isMultiline_shift (n k : Nat) (l : Placed) :
    (l.shift n k).isMultiline = l.isMultiline := by
  rw [Bool.eq_iff_iff, Placed.isMultiline, Placed.isMultiline, bne_iff_ne, bne_iff_ne]
  simp only [Placed.shift]
  omega

theorem Placed.reaches_shift (n k : Nat) (l : Placed) (line : Nat) :
    (l.shift n k).reaches (line + k) = l.reaches line := by
  simp only [Placed.reaches, Placed.shift, Nat.add_le_add_iff_right]

namespace Placement

/-- A placement with the same labels some bytes and lines further down. The lines that hold a start or
an end of a label have the same texts; nothing is said of the others. -/
structure IsShift (n k : Nat) (p q : Placement) : Prop where
  source : p.source.IsShift n k q.source
  labels_eq : q.labels = p.labels.map (Placed.shift n k)
  slices : ∀ i ∈ p.relevantLines, q.source.lineSlice (i + k : Nat) = p.source.lineSlice i

variable {p q : Placement} {n k i : Nat} {l : Placed}

section Labels

variable (h : IsShift n k p q)
include h

theorem IsShift.getElem? (i : Nat) : q.labels[i]? = (p.labels[i]?).map (Placed.shift n k) := by
  rw [h.labels_eq, List.getElem?_map]

theorem IsShift.mem_labels (hl : l ∈ p.labels) : l.shift n k ∈ q.labels := by
  rw [h.labels_eq]
  exact List.mem_map_of_mem hl

theorem IsShift.zipIdx : q.labels.zipIdx = p.labels.zipIdx.map fun m => (m.1.shift n k, m.2) := by
  rw [h.labels_eq, List.zipIdx_map]
  rfl

theorem IsShift.relevantLines_eq : q.relevantLines = p.relevantLines.map (· + k) := by
  apply eq_of_increasing (f := id)
  · exact q.relevantLines_increasing
  · refine List.pairwise_map.mpr (p.relevantLines_increasing.imp ?_)
    exact fun hlt => Nat.add_lt_add_right hlt k
  · intro line
    simp only [List.mem_map, mem_relevantLines_iff, h.labels_eq]
    constructor
    · rintro ⟨_, ⟨l, hl, rfl⟩, rfl | rfl⟩
      · exact ⟨_, ⟨l, hl, .inl rfl⟩, rfl⟩
      · exact ⟨_, ⟨l, hl, .inr rfl⟩, rfl⟩
    · rintro ⟨_, ⟨l, hl, rfl | rfl⟩, rfl⟩
      · exact ⟨_, ⟨l, hl, rfl⟩, .inl rfl⟩
      · exact ⟨_, ⟨l, hl, rfl⟩, .inr rfl⟩

theorem IsShift.multiline_eq : q.multiline = p.multiline.map (Placed.shift n k) := by
  rw [multiline, multiline, h.labels_eq, List.filter_map]
  congr 2
  funext l
  exact l.isMultiline_shift n k

theorem IsShift.depth_eq : q.depth = p.depth := by
  rw [depth, depth, h.multiline_eq, List.map_map]
  congr 2
  funext l
  rw [Function.comp_apply, List.countP_map]
  congr 1
  funext m
  exact m.reaches_shift n k l.startLine

theorem IsShift.marginWidth_eq : q.marginWidth = p.marginWidth := by
  rw [marginWidth, marginWidth, h.depth_eq]

theorem IsShift.relabels : Relabels (.down k) p q where
  labels_rel i := by
    change Option.Rel _ p.labels[i]? q.labels[i]?
    rw [h.getElem?]
    cases p.labels[i]? with
    | none => exact .none
    | some l => exact .some ⟨rfl, rfl, rfl, rfl⟩
  exists_label j _ _ _ := ⟨j, rfl⟩

theorem IsShift.openBy_eq (line : Nat) :
    q.openBy (line + k) = (p.openBy line).map (OpenLabel.shift k) :=
  h.relabels.openBy_eq line

/-- A label has the same marks, for they are counted from the start of the line. -/
theorem IsShift.markOf_eq (hl : l ∈ p.labels) (i : Nat) :
    q.markOf (i + k : Nat) (l.shift n k) = p.markOf i l := by
  have hshifted := h.mem_labels hl
  by_cases hi : i = l.startLine ∨ i = l.endLine
  · have hlt : i < p.source.lines.length := by
      rcases hi with rfl | rfl
      · exact startLine_lt_length hl
      · exact endLine_lt_length hl
    obtain ⟨line, hline⟩ := Source.exists_line hlt
    obtain ⟨line', hline', hoffset, hlen⟩ := h.source.line i line hline
    obtain ⟨mark, hmark, hstart, hstop⟩ := markOf_on_line hl hline hi
    have hi' : i + k = (l.shift n k).startLine ∨ i + k = (l.shift n k).endLine := by
      simp only [Placed.shift]
      omega
    obtain ⟨mark', hmark', hstart', hstop'⟩ := markOf_on_line hshifted hline' hi'
    simp only [Placed.shift, Label.shift, Span.shift, Nat.add_right_cancel_iff, Line.byteEnd]
      at hstart hstop hstart' hstop'
    rw [hmark, hmark', Option.some_inj]
    have hstarts : mark'.start = mark.start := by
      by_cases hs : i = l.startLine
      · rw [if_pos hs] at hstart hstart'
        omega
      · rw [if_neg hs] at hstart hstart'
        omega
    have hstops : mark'.stop = mark.stop := by
      by_cases he : i = l.endLine
      · rw [if_pos he] at hstop hstop'
        omega
      · rw [if_neg he] at hstop hstop'
        omega
    obtain ⟨first, last, _⟩ := mark
    obtain ⟨first', last', _⟩ := mark'
    cases (hstarts : first' = first)
    cases (hstops : last' = last)
    rfl
  · have hstart : ((i + k : Nat) : Int) ≠ (l.shift n k).startLine := by
      simp only [Placed.shift]
      omega
    have hend : ((i + k : Nat) : Int) ≠ (l.shift n k).endLine := by
      simp only [Placed.shift]
      omega
    rw [markOf_off_line hstart hend, markOf_off_line (by omega) (by omega)]

theorem IsShift.touching_eq (i : Nat) : q.touching (i + k : Nat) = p.touching i := by
  rw [Placement.touching_eq, Placement.touching_eq, h.zipIdx, List.filterMap_map]
  apply List.filterMap_congr
  intro m hm
  rw [Function.comp_apply, h.markOf_eq (List.fst_mem_of_mem_zipIdx hm)]

theorem IsShift.singles_eq (marks : List (Nat × Span)) :
    q.singles marks = (p.singles marks).map fun s => (s.1, s.2.shift n) := by
  rw [singles, singles, List.map_filterMap]
  congr 1
  funext m
  rw [h.getElem?]
  cases p.labels[m.1]? with
  | none => rfl
  | some l =>
    simp only [Option.map_some, Option.bind_some, Placed.isMultiline_shift]
    split <;> rfl

end Labels

section Line

variable {line line' : Line} (h : IsShift n k p q) (hi : i ∈ p.relevantLines)
  (hline : p.source.lines[i]? = some line) (hline' : q.source.lines[i + k]? = some line')
  (hoffset : line'.byteOffset = line.byteOffset + n) (hlen : line'.byteLen = line.byteLen)
include h hi hline hline' hoffset hlen

theorem IsShift.textBetween {a b : Nat} (hab : a ≤ b) (hb : b ≤ line.byteLen) :
    q.source.textBetween (line'.byteOffset + a : Nat) (line'.byteOffset + b : Nat) =
      carry n id (p.source.textBetween (line.byteOffset + a : Nat) (line.byteOffset + b : Nat)) :=
  Source.textBetween_carry hline hline' hoffset hlen (h.slices i hi) hab hb

/-- A piece of a line is the same piece, for its text and its bounds are those on the line. -/
theorem IsShift.fragment_eq (marks : List (Nat × Span)) {piece : Nat × Nat}
    (horder : piece.1 ≤ piece.2) (hbound : piece.2 ≤ line.byteLen) :
    q.fragment (i + k : Nat) line' marks piece = carry n id (p.fragment i line marks piece) := by
  have htext := h.textBetween hi hline hline' hoffset hlen horder hbound
  have hspan : Span.ofBounds piece.1 piece.2 = .ok ⟨piece.1, piece.2, horder⟩ :=
    Span.ofBounds_eq_ok rfl rfl
  rw [fragment, fragment]
  refine bind_carry htext fun text _ => ?_
  rw [hspan]
  cases (innermost marks piece).map Prod.fst with
  | none => rfl
  | some j =>
    rw [Option.bind_some, Option.bind_some, h.getElem?]
    cases p.labels[j]? with
    | none => rfl
    | some l =>
      have hstart : (((l.shift n k).startLine : Int) == ((i + k : Nat) : Int)) =
          ((l.startLine : Int) == (i : Int)) := by
        rw [Bool.eq_iff_iff, beq_iff_eq, beq_iff_eq]
        simp only [Placed.shift]
        omega
      simp only [Option.map_some, Option.any_some, Placed.isMultiline_shift, hstart]
      rfl

theorem IsShift.columnAt_eq {x : Nat} (hx : x ≤ line.byteLen) :
    q.columnAt line' x = carry n id (p.columnAt line x) := by
  have htext := h.textBetween hi hline hline' hoffset hlen (Nat.zero_le x) hx
  exact bind_carry htext fun _ _ => rfl

end Line

variable (h : IsShift n k p q) (hi : i ∈ p.relevantLines)
include h hi

theorem IsShift.fragments_eq :
    q.fragments (i + k : Nat) = carry n id (p.fragments i) := by
  obtain ⟨line, hline⟩ := Source.exists_line (lt_length_of_mem_relevantLines hi)
  obtain ⟨line', hline', hoffset, hlen⟩ := h.source.line i line hline
  rw [fragments, fragments, Source.line_eq_ok_iff.mpr hline, Source.line_eq_ok_iff.mpr hline',
    marks_eq_touching, marks_eq_touching, h.touching_eq]
  change (pieces (cuts line'.byteLen (p.touching i))).mapM _ =
    carry n id ((pieces (cuts line.byteLen (p.touching i))).mapM _)
  have hmap : ((pieces (cuts line.byteLen (p.touching i))).map id).mapM
      (q.fragment (i + k : Nat) line' (p.touching i)) = carry n (List.map id)
        ((pieces (cuts line.byteLen (p.touching i))).mapM (p.fragment i line (p.touching i))) :=
    mapM_carry fun piece hpiece => h.fragment_eq hi hline hline' hoffset hlen (p.touching i)
      (Nat.le_of_lt (piece_bounds hpiece).1) (piece_bounds hpiece).2
  rw [List.map_id, List.map_id_fun] at hmap
  rw [hlen]
  exact hmap

theorem IsShift.targets_eq : q.targets (i + k : Nat) (q.touching (i + k : Nat)) =
    carry n (List.map (Target.shift n)) (p.targets i (p.touching i)) := by
  obtain ⟨line, hline⟩ := Source.exists_line (lt_length_of_mem_relevantLines hi)
  obtain ⟨line', hline', hoffset, hlen⟩ := h.source.line i line hline
  obtain ⟨slice, hslice, _⟩ := Source.exists_lineSlice hline
  rw [targets, targets, Source.line_eq_ok_iff.mpr hline, Source.line_eq_ok_iff.mpr hline',
    h.slices i hi, hslice, h.touching_eq, h.singles_eq]
  refine mapM_carry ?_
  rintro ⟨⟨j, mark⟩, label⟩ hs
  obtain ⟨l, hl, _, _, hmark⟩ := mem_singles_iff.mp hs
  have hstop := markOf_stop_le (List.mem_of_getElem? hl) hline hmark
  have hstart := Nat.le_trans mark.start_le_stop hstop
  rw [target, target]
  refine bind_carry (h.columnAt_eq hi hline hline' hoffset hlen hstart) fun first _ => ?_
  refine bind_carry (h.columnAt_eq hi hline hline' hoffset hlen hstop) fun last _ => ?_
  rfl

end Placement

end Callout

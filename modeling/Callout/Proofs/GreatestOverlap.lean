import Callout.Proofs.SlotAllocation
import Mathlib.Data.List.MinMax

namespace Callout

namespace Source

/-- Whether a span reaches over several lines of a source, a given one among them. -/
def crosses (s : Source) (span : Span) (line : Nat) : Bool :=
  match s.spanLines span with
  | .ok (startLine, endLine) => startLine != endLine && startLine ≤ line && line ≤ endLine
  | .error _ => false

/-- The number of labels that reach over several lines of a source, a given one among them. -/
def overlap (s : Source) (labels : List Label) (line : Nat) : Nat :=
  labels.countP fun label => s.crosses label.span line

theorem crosses_of_spanLines {s : Source} {span : Span} {startLine endLine : Nat}
    (h : s.spanLines span = .ok (startLine, endLine)) (line : Nat) :
    s.crosses span line = (startLine != endLine && startLine ≤ line && line ≤ endLine) := by
  rw [crosses, h]

end Source

namespace Placement

variable {source : Source} {labels : List Label} {p : Placement}

/-- Counting does not depend on the order of the labels. -/
theorem countAt_eq_overlap (h : ofLabels source labels = .ok p) (line : Nat) :
    p.countAt line = source.overlap labels line := by
  obtain ⟨rfl, hlabels⟩ := ofLabels_eq_ok h
  have hcrosses : ∀ l ∈ p.labels, (l.reaches line && l.isMultiline) =
      p.source.crosses l.label.span line := by
    intro l hl
    rw [Source.crosses_of_spanLines (p.lines_eq l hl), Bool.and_comm, Bool.and_assoc]
    rfl
  calc p.countAt line
      = p.labels.countP fun l => l.reaches line && l.isMultiline := by
        rw [countAt, multiline, List.countP_filter]
    _ = p.labels.countP fun l => p.source.crosses l.label.span line :=
        List.countP_congr fun l hl => by rw [hcrosses l hl]
    _ = p.source.overlap (p.labels.map Placed.label) line := by
        rw [Source.overlap, List.countP_map]
        rfl
    _ = p.source.overlap labels line := by
        rw [hlabels]
        exact (List.mergeSort_perm labels _).countP_eq _

/-- Among the labels on a line there is one that starts last. -/
theorem exists_latest {line : Nat} (h : 0 < p.countAt line) :
    ∃ l ∈ p.multiline, l.startLine ≤ line ∧
      ∀ m ∈ p.multiline, m.reaches line = true → m.startLine ≤ l.startLine := by
  have hne : (p.multiline.filter fun m => m.reaches line).argmax Placed.startLine ≠ none := by
    rw [Ne, List.argmax_eq_none, ← List.length_eq_zero_iff, ← List.countP_eq_length_filter]
    exact Nat.ne_of_gt h
  obtain ⟨l, hl⟩ := Option.ne_none_iff_exists'.mp hne
  obtain ⟨hmem, hreach⟩ := List.mem_filter.mp (List.argmax_mem hl)
  simp only [Placed.reaches, Bool.and_eq_true, decide_eq_true_eq] at hreach
  refine ⟨l, hmem, hreach.1, ?_⟩
  intro m hm hmline
  exact List.le_of_mem_argmax (List.mem_filter.mpr ⟨hm, hmline⟩) hl

/-- What is on a line is on the line where the latest label on it starts, and so counts in the depth. -/
theorem overlap_le_depth (p : Placement) (line : Nat) : p.countAt line ≤ p.depth := by
  rcases Nat.eq_zero_or_pos (p.countAt line) with hzero | hpos
  · omega
  · obtain ⟨l, hl, hstart, hlatest⟩ := exists_latest hpos
    have hcarried : p.countAt line ≤ p.countAt l.startLine := by
      apply List.countP_mono_left
      intro m hm hmline
      have hmstart := hlatest m hm hmline
      simp only [Placed.reaches, Bool.and_eq_true, decide_eq_true_eq] at hmline ⊢
      omega
    exact Nat.le_trans hcarried (countAt_le_depth hl)

theorem exists_overlap_eq_depth (p : Placement) :
    ∃ line < p.source.lines.length, p.countAt line = p.depth := by
  rcases Nat.eq_zero_or_pos p.depth with hzero | hpos
  · have hle := p.overlap_le_depth 0
    exact ⟨0, p.source.lines_length_pos, by omega⟩
  · obtain ⟨l, hl, hcount⟩ := exists_countAt_eq_depth hpos
    exact ⟨l.startLine, startLine_lt_length (mem_multiline_iff.mp hl).1, hcount⟩

/-- A label of several lines is on its own first line. -/
theorem depth_eq_zero_iff : p.depth = 0 ↔ ∀ l ∈ p.labels, l.startLine = l.endLine := by
  constructor
  · intro hzero l hl
    by_contra hne
    have hmulti : l ∈ p.multiline := mem_multiline_iff.mpr ⟨hl, bne_iff_ne.mpr hne⟩
    have hcount : 0 < p.countAt l.startLine :=
      List.countP_pos_iff.mpr ⟨l, hmulti, reaches_startLine hl⟩
    have hle := countAt_le_depth hmulti
    omega
  · intro hsame
    by_contra hne
    obtain ⟨l, hl, _⟩ := exists_countAt_eq_depth (Nat.pos_of_ne_zero hne)
    obtain ⟨hmem, hmulti⟩ := mem_multiline_iff.mp hl
    exact bne_iff_ne.mp hmulti (hsame l hmem)

theorem forall_single_iff (h : ofLabels source labels = .ok p) :
    (∀ l ∈ p.labels, l.startLine = l.endLine) ↔
      ∀ label ∈ labels, ∃ line, source.spanLines label.span = .ok (line, line) := by
  have hlabels : ∀ label, label ∈ labels ↔ ∃ l ∈ p.labels, l.label = label :=
    fun label => mem_labels_iff h
  obtain ⟨rfl, _⟩ := ofLabels_eq_ok h
  constructor
  · intro hsame label hlabel
    obtain ⟨l, hl, rfl⟩ := (hlabels label).mp hlabel
    refine ⟨l.startLine, ?_⟩
    rw [p.lines_eq l hl, ← hsame l hl]
  · intro hsingle l hl
    obtain ⟨line, hline⟩ := hsingle l.label ((hlabels l.label).mpr ⟨l, hl, rfl⟩)
    obtain ⟨hstart, hend⟩ := Prod.mk.inj (Except.ok.inj ((p.lines_eq l hl).symm.trans hline))
    rw [hstart, hend]

end Placement

/-- Labels that fit a source are placed, and their depth is the greatest number of labels of several lines
that a line of the source has, be it the start of a label or not. It is zero only when every label is on one
line. -/
theorem depth_isGreatest {source : Source} {labels : List Label}
    (hfit : ∀ label ∈ labels, label.span.stop ≤ source.byteLen) :
    ∃ p, Placement.ofLabels source labels = .ok p ∧
      IsGreatest {n | ∃ line < source.lines.length, source.overlap labels line = n} p.depth ∧
      (p.depth = 0 ↔ ∀ label ∈ labels, ∃ line, source.spanLines label.span = .ok (line, line)) := by
  obtain ⟨p, hp⟩ := Placement.exists_ofLabels_iff.mpr hfit
  obtain ⟨hsource, _⟩ := Placement.ofLabels_eq_ok hp
  refine ⟨p, hp, ⟨?_, ?_⟩, ?_⟩
  · obtain ⟨line, hline, hcount⟩ := p.exists_overlap_eq_depth
    rw [hsource] at hline
    exact ⟨line, hline, by rw [← hcount, Placement.countAt_eq_overlap hp]⟩
  · rintro n ⟨line, _, rfl⟩
    rw [← Placement.countAt_eq_overlap hp]
    exact p.overlap_le_depth line
  · rw [Placement.depth_eq_zero_iff, Placement.forall_single_iff hp]

/-- Four lines of one letter. -/
def fourLetters : Source :=
  Source.ofText ['a', '\n', 'b', '\n', 'c', '\n', 'd']

/-- A label on the last two lines, two on the second and the third, one on the first two, and one on a single
line. -/
def chainedLabels : List Label :=
  [⟨.between 4 7, "last", .default⟩, ⟨.between 2 5, "middle", .default⟩,
    ⟨.between 6 7, "single", .default⟩, ⟨.between 0 3, "first", .default⟩,
    ⟨.between 2 5, "again", .default⟩]

theorem chainedLabels_depth : (∀ label ∈ chainedLabels, label.span.stop ≤ fourLetters.byteLen) ∧
    ∃ p, Placement.ofLabels fourLetters chainedLabels = .ok p ∧ p.depth = 3 ∧
      IsGreatest {n | ∃ line < fourLetters.lines.length,
        fourLetters.overlap chainedLabels line = n} p.depth := by
  have hfit : ∀ label ∈ chainedLabels, label.span.stop ≤ fourLetters.byteLen := by decide
  obtain ⟨p, hp, hgreatest, _⟩ := depth_isGreatest hfit
  have hthree : IsGreatest {n | ∃ line < fourLetters.lines.length,
      fourLetters.overlap chainedLabels line = n} 3 := by
    refine ⟨⟨1, by decide, by decide⟩, ?_⟩
    rintro n ⟨line, hline, rfl⟩
    exact (show ∀ line < fourLetters.lines.length,
      fourLetters.overlap chainedLabels line ≤ 3 by decide) line hline
  exact ⟨hfit, p, hp, hgreatest.unique hthree, hgreatest⟩

end Callout

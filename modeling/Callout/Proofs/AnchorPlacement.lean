import Callout.Proofs.CellColors
import Callout.Proofs.InnermostLabel
import Callout.Proofs.RenderOutcome
import Callout.Proofs.UnderlineColumns

namespace Callout

/-- Whether a mark on a line is that of a label that lies on this one line, with index `j` in sorted
order. -/
def Source.IsMarkWithin (s : Source) (labels : List Label) (line j : Nat) (mark : Span) : Prop :=
  ∃ label, (sortLabels labels)[j]? = some label ∧ s.spanLines label.span = .ok (line, line) ∧
    s.localSpan line label.span = .ok (some mark)

/-- The targets of some marks on a line: one for each mark of a label on this one line, in sorted order,
in the columns where the characters of the mark are shown. -/
structure TargetsOf (source : Source) (labels : List Label) (line : Nat) (slice : List Char)
    (marks : List (Nat × Span)) (targets : List Target) : Prop where
  exists_iff : ∀ j mark, (∃ t ∈ targets, t.index = j ∧ t.span = mark) ↔
    (j, mark) ∈ marks ∧ source.IsMarkWithin labels line j mark
  increasing : targets.Pairwise fun t u => t.index < u.index
  showsIn : ∀ t ∈ targets, t.ShowsIn slice

/-- Anchors given out one target after the other, in the order in which the targets end and the earlier
label first: each has the least column from the one it asks for on that no anchor before it has. -/
structure HangInOrder (attach : Attach) (targets : List Target) (anchors : List Anchor) : Prop where
  perm : (anchors.map Anchor.target).Perm targets
  order : anchors.Pairwise fun a b => a.target.span.stop < b.target.span.stop ∨
    a.target.span.stop = b.target.span.stop ∧ a.target.index < b.target.index
  nodup : (anchors.map Anchor.column).Nodup
  least : ∀ earlier a later, anchors = earlier ++ a :: later →
    IsLeast {c | a.target.attachment attach ≤ c ∧ c ∉ earlier.map Anchor.column} a.column
  near : ∀ earlier a later, anchors = earlier ++ a :: later →
    a.column ≤ a.target.attachment attach + earlier.length

theorem anchors_hangInOrder (attach : Attach) {targets : List Target}
    (h : targets.Pairwise fun t u => t.index < u.index) :
    HangInOrder attach targets (anchors attach targets) := by
  have horder := mergeSort_stable (fun t : Target => t.span.stop) h
  rw [← anchors_targets attach, List.pairwise_map] at horder
  refine ⟨?_, horder, anchors_columns_nodup attach targets, fun earlier a later hsplit => ?_,
    fun earlier a later hsplit => ?_⟩
  · rw [anchors_targets]
    exact List.mergeSort_perm targets _
  · rw [anchors_split hsplit]
    exact leastFree_isLeast _ _
  · have hle := leastFree_le (earlier.map Anchor.column) (a.target.attachment attach)
    rwa [← anchors_split hsplit, List.length_map] at hle

namespace Placement

variable {p : Placement} {source : Source} {labels : List Label} {i j : Nat} {line : Line}
  {slice : List Char} {mark : Span} {marks : List (Nat × Span)} {targets : List Target}

theorem isMarkWithin_iff (hp : ofLabels source labels = .ok p) :
    source.IsMarkWithin labels i j mark ↔
      ∃ l, p.labels[j]? = some l ∧ l.isMultiline = false ∧ p.markOf i l = some mark := by
  obtain ⟨rfl, hlabels⟩ := ofLabels_eq_ok hp
  simp only [Source.IsMarkWithin, ← hlabels, List.getElem?_map, Option.map_eq_some_iff]
  constructor
  · rintro ⟨_, ⟨l, hl, rfl⟩, hlines, hmark⟩
    have hmem := List.mem_of_getElem? hl
    rw [localSpan_eq_markOf hmem] at hmark
    obtain ⟨hstart, hend⟩ := Prod.mk.inj (Except.ok.inj ((p.lines_eq l hmem).symm.trans hlines))
    exact ⟨l, hl, isMultiline_eq_false_iff.mpr (hstart.trans hend.symm), Except.ok.inj hmark⟩
  · rintro ⟨l, hl, hone, hmark⟩
    have hmem := List.mem_of_getElem? hl
    have hon := (markOf_isSome_iff hmem).mp (by rw [hmark]; rfl)
    have hsame := isMultiline_eq_false_iff.mp hone
    refine ⟨_, ⟨l, hl, rfl⟩, ?_, by rw [localSpan_eq_markOf hmem, hmark]⟩
    rw [p.lines_eq l hmem, show l.startLine = i by omega, show l.endLine = i by omega]

theorem isMarkWithin_iff_of_touching (hp : ofLabels source labels = .ok p)
    (h : (j, mark) ∈ p.touching i) :
    source.IsMarkWithin labels i j mark ↔ ∃ l, p.labels[j]? = some l ∧ l.isMultiline = false := by
  obtain ⟨l, hl, hmark⟩ := mem_touching_iff.mp h
  rw [isMarkWithin_iff hp]
  constructor
  · rintro ⟨l, hl, hone, _⟩
    exact ⟨l, hl, hone⟩
  · rintro ⟨l', hl', hone⟩
    cases hl.symm.trans hl'
    exact ⟨l, hl, hone, hmark⟩

/-- Only a boundary of characters has a column. -/
theorem isBoundary_of_columnAt {x n : Nat} (hline : p.source.lines[i]? = some line)
    (hslice : p.source.lineSlice i = .ok slice) (hx : x ≤ line.byteLen)
    (h : p.columnAt line x = .ok n) : IsBoundary slice x := by
  obtain ⟨text, htext, _⟩ := bind_eq_ok_iff.mp h
  rcases Nat.eq_zero_or_pos x with rfl | hpos
  · exact isBoundary_zero slice
  · have hend : line.byteOffset + x ≤ p.source.byteLen := by
      have := Source.lines_byteEnd_le_byteLen hline
      rw [Line.byteEnd] at this
      omega
    obtain ⟨head, tail, hsplit, hhead, hstop⟩ :=
      (Source.textBetween_eq_ok_iff (by omega) hend).mp htext
    rw [Source.isBoundary_slice_iff hline hslice hx]
    exact ⟨head ++ text, tail, hsplit, by rw [byteWidth_append]; omega⟩

theorem isBoundary_of_target {single : (Nat × Span) × Label} {visible : Nat} {t : Target}
    (hline : p.source.lines[i]? = some line) (hslice : p.source.lineSlice i = .ok slice)
    (hstop : single.1.2.stop ≤ line.byteLen) (h : p.target line visible single = .ok t) :
    IsBoundary slice single.1.2.start ∧ IsBoundary slice single.1.2.stop := by
  obtain ⟨_, hfirst, h⟩ := bind_eq_ok_iff.mp h
  obtain ⟨_, hlast, _⟩ := bind_eq_ok_iff.mp h
  have hstart := Nat.le_trans single.1.2.start_le_stop hstop
  exact ⟨isBoundary_of_columnAt hline hslice hstart hfirst,
    isBoundary_of_columnAt hline hslice hstop hlast⟩

theorem exists_targets_iff (hline : p.source.lines[i]? = some line)
    (hslice : p.source.lineSlice i = .ok slice) (hmarks : ∀ m ∈ marks, m ∈ p.touching i) :
    (∃ targets, p.targets i marks = .ok targets) ↔
      ∀ s ∈ p.singles marks, IsBoundary slice s.1.2.start ∧ IsBoundary slice s.1.2.stop := by
  constructor
  · rintro ⟨targets, htargets⟩ s hs
    rw [Placement.targets, Source.line_eq_ok_iff.mpr hline, hslice] at htargets
    obtain ⟨t, ht⟩ := mapM_mem_ok (f := p.target line (dropTerminators slice).length) htargets hs
    obtain ⟨l, hl, hmark⟩ := mem_touching_iff.mp (hmarks _ (mem_singles.mp hs).1)
    exact isBoundary_of_target hline hslice (markOf_stop_le (List.mem_of_getElem? hl) hline hmark) ht
  · intro h
    obtain ⟨targets, htargets, _⟩ := targets_of_isBoundary hline hslice h
    exact ⟨targets, htargets⟩

/-- The mark of a label on one line cuts no character exactly when the label fits the source. -/
theorem isBoundary_iff_fitsIn {l : Placed} (hline : p.source.lines[i]? = some line)
    (hslice : p.source.lineSlice i = .ok slice) (hl : l ∈ p.labels) (hone : l.isMultiline = false)
    (hmark : p.markOf i l = some mark) :
    IsBoundary slice mark.start ∧ IsBoundary slice mark.stop ↔ l.label.span.FitsIn p.source := by
  have hon := (markOf_isSome_iff hl).mp (by rw [hmark]; rfl)
  have hsame := isMultiline_eq_false_iff.mp hone
  have hstart : l.startLine = i := by omega
  have hend : l.endLine = i := by omega
  rw [isBoundary_mark_iff hline hslice hl hmark]
  simp only [hstart, hend, forall_const, Span.FitsIn, stop_le_byteLen hl, true_and]

theorem targetsOf_targets (hp : ofLabels source labels = .ok p) (hline : source.lines[i]? = some line)
    (hslice : source.lineSlice i = .ok slice) (hmarks : marks.Sublist (p.touching i))
    (h : p.targets i marks = .ok targets) : TargetsOf source labels i slice marks targets := by
  obtain ⟨rfl, _⟩ := ofLabels_eq_ok hp
  have hbounds := (exists_targets_iff hline hslice fun m hm => hmarks.subset hm).mp ⟨targets, h⟩
  obtain ⟨targets', htargets', hall⟩ := targets_of_isBoundary hline hslice hbounds
  cases h.symm.trans htargets'
  have hmap : targets.map (fun t => ((t.index, t.span), t.label)) = p.singles marks :=
    (forall₂_map_eq hall fun s t h => h.1).trans (List.map_id _)
  refine ⟨fun j mark => ?_, ?_, fun t ht => ?_⟩
  · constructor
    · rintro ⟨t, ht, rfl, rfl⟩
      have hsingle : ((t.index, t.span), t.label) ∈ p.singles marks :=
        hmap ▸ List.mem_map.mpr ⟨t, ht, rfl⟩
      obtain ⟨hmem, l, hl, hone, _⟩ := mem_singles.mp hsingle
      exact ⟨hmem, (isMarkWithin_iff_of_touching hp (hmarks.subset hmem)).mpr ⟨l, hl, hone⟩⟩
    · rintro ⟨hmem, hwithin⟩
      obtain ⟨l, hl, hone⟩ := (isMarkWithin_iff_of_touching hp (hmarks.subset hmem)).mp hwithin
      have hsingle : ((j, mark), l.label) ∈ p.singles marks :=
        mem_singles.mpr ⟨hmem, l, hl, hone, rfl⟩
      rw [← hmap] at hsingle
      obtain ⟨t, ht, heq⟩ := List.mem_map.mp hsingle
      obtain ⟨hindex, hspan⟩ := Prod.mk.inj (Prod.mk.inj heq).1
      exact ⟨t, ht, hindex, hspan⟩
  · have hincreasing := singles_pairwise (p := p) ((p.touching_increasing i).sublist hmarks)
    rwa [← hmap, List.pairwise_map] at hincreasing
  · obtain ⟨_, _, _, hshows⟩ := forall₂_mem_right hall ht
    exact hshows

theorem exists_targets_iff_fitsIn (hp : ofLabels source labels = .ok p)
    (hline : source.lines[i]? = some line) (hmarks : ∀ m ∈ marks, m ∈ p.touching i) :
    (∃ targets, p.targets i marks = .ok targets) ↔ ∀ m ∈ marks, ∀ label,
      (sortLabels labels)[m.1]? = some label → source.spanLines label.span = .ok (i, i) →
        label.span.FitsIn source := by
  obtain ⟨rfl, hlabels⟩ := ofLabels_eq_ok hp
  obtain ⟨slice, hslice, _⟩ := Source.exists_lineSlice hline
  rw [exists_targets_iff hline hslice hmarks]
  constructor
  · rintro hbounds ⟨j, mark⟩ hm label hlabel hlines
    obtain ⟨l, hl, hmark⟩ := mem_touching_iff.mp (hmarks _ hm)
    rw [← hlabels, List.getElem?_map, hl, Option.map_some, Option.some_inj] at hlabel
    subst hlabel
    have hmem := List.mem_of_getElem? hl
    obtain ⟨hstart, hend⟩ := Prod.mk.inj (Except.ok.inj ((p.lines_eq l hmem).symm.trans hlines))
    have hone : l.isMultiline = false := isMultiline_eq_false_iff.mpr (hstart.trans hend.symm)
    exact (isBoundary_iff_fitsIn hline hslice hmem hone hmark).mp
      (hbounds ((j, mark), l.label) (mem_singles.mpr ⟨hm, l, hl, hone, rfl⟩))
  · rintro hfits ⟨⟨j, mark⟩, label⟩ hs
    obtain ⟨hm, l, hl, hone, rfl⟩ := mem_singles.mp hs
    obtain ⟨label, hlabel, hlines, _⟩ :=
      (isMarkWithin_iff_of_touching hp (hmarks _ hm)).mpr ⟨l, hl, hone⟩
    obtain ⟨l', hl', hmark⟩ := mem_touching_iff.mp (hmarks _ hm)
    cases hl.symm.trans hl'
    have hfit := hfits _ hm label hlabel hlines
    rw [← hlabels, List.getElem?_map, hl, Option.map_some, Option.some_inj] at hlabel
    exact (isBoundary_iff_fitsIn hline hslice (List.mem_of_getElem? hl) hone hmark).mpr
      (hlabel ▸ hfit)

end Placement

/-- The labels that lie on one line, or some of them, have one anchor each if they cut no character of it:
in columns of their own, given out in the order in which the labels end, each in the first free column
from the one that its label asks for on. That one is a column of the label, or the one where it starts
if none of it is shown. -/
theorem anchors_of_line {source : Source} {labels : List Label} {i : Nat} {line : Line}
    (hfit : ∀ label ∈ labels, label.span.stop ≤ source.byteLen)
    (hline : source.lines[i]? = some line) :
    ∃ p slice, Placement.ofLabels source labels = .ok p ∧ source.lineSlice i = .ok slice ∧
      ∀ marks, marks.Sublist (p.touching i) →
        ((∃ targets, p.targets i marks = .ok targets) ↔ ∀ m ∈ marks, ∀ label,
          (sortLabels labels)[m.1]? = some label → source.spanLines label.span = .ok (i, i) →
            label.span.FitsIn source) ∧
        ∀ targets, p.targets i marks = .ok targets →
          TargetsOf source labels i slice marks targets ∧ ∀ attach,
            HangInOrder attach targets (anchors attach targets) ∧
            ∀ t ∈ targets, t.startColumn ≤ t.attachment attach ∧
              t.attachment attach < max (t.startColumn + 1) t.endColumn := by
  obtain ⟨p, hp⟩ := Placement.exists_ofLabels_iff.mpr hfit
  obtain ⟨slice, hslice, _⟩ := Source.exists_lineSlice hline
  refine ⟨p, slice, hp, hslice, fun marks hmarks => ⟨?_, fun targets htargets => ?_⟩⟩
  · exact Placement.exists_targets_iff_fitsIn hp hline fun m hm => hmarks.subset hm
  · have htargetsOf := Placement.targetsOf_targets hp hline hslice hmarks htargets
    exact ⟨htargetsOf, fun attach => ⟨anchors_hangInOrder attach htargetsOf.increasing,
      fun t _ => t.attachment_range attach⟩⟩

/-- One line that ends with a carriage return and a line feed. -/
def terminated : Source :=
  Source.ofText ['a', 'b', '\r', '\n']

/-- A label on both letters, an empty one between them, and one inside the terminator. -/
def hanging : List Label :=
  [⟨.between 0 2, "both", .default⟩, ⟨.between 1 1, "empty", .default⟩,
    ⟨.between 3 4, "inside", .default⟩]

theorem hanging_anchors : (∀ label ∈ hanging, label.span.stop ≤ terminated.byteLen) ∧
    terminated.lines[0]? = some ⟨0, 4, 0, 4⟩ ∧ ∃ p targets,
      Placement.ofLabels terminated hanging = .ok p ∧ p.targets 0 (p.touching 0) = .ok targets ∧
      ∀ attach, HangInOrder attach targets (anchors attach targets) := by
  have hfit : ∀ label ∈ hanging, label.span.stop ≤ terminated.byteLen := by decide
  have hline : terminated.lines[0]? = some ⟨0, 4, 0, 4⟩ := by decide
  have hfits : ∀ label ∈ hanging, label.span.FitsIn terminated := by decide
  obtain ⟨p, _, hp, _, hanchors⟩ := anchors_of_line hfit hline
  obtain ⟨hexists, hall⟩ := hanchors _ (List.Sublist.refl _)
  obtain ⟨targets, htargets⟩ := hexists.mpr fun m _ label hlabel _ =>
    hfits label (Placement.mem_sortLabels.mp (List.mem_of_getElem? hlabel))
  exact ⟨hfit, hline, p, targets, hp, htargets, fun attach => ((hall targets htargets).2 attach).1⟩

end Callout

import Callout.Proofs.SpanParts

namespace Callout

namespace Placement

variable {p : Placement} {l m : Placed}

theorem stop_le_byteLen (h : l ∈ p.labels) : l.label.span.stop ≤ p.source.byteLen :=
  Source.stop_le_byteLen (p.lines_eq l h)

theorem start_onLine (h : l ∈ p.labels) : p.source.OnLine l.label.span.start l.startLine :=
  Source.start_onLine (p.lines_eq l h)

theorem last_onLine (h : l ∈ p.labels) :
    p.source.OnLine (max l.label.span.start (l.label.span.stop - 1)) l.endLine :=
  Source.last_onLine (p.lines_eq l h)

theorem startLine_le_endLine (h : l ∈ p.labels) : l.startLine ≤ l.endLine :=
  Source.startLine_le_endLine (p.lines_eq l h)

theorem reaches_startLine (h : l ∈ p.labels) : l.reaches l.startLine = true := by
  have hle := startLine_le_endLine h
  simp only [Placed.reaches, hle, Nat.le_refl, decide_true, Bool.and_self]

theorem isMultiline_iff (h : l ∈ p.labels) : l.isMultiline = true ↔ l.startLine < l.endLine := by
  have hle := startLine_le_endLine h
  rw [Placed.isMultiline, bne_iff_ne]
  omega

theorem isMultiline_eq_false_iff : l.isMultiline = false ↔ l.startLine = l.endLine := by
  rw [Placed.isMultiline, bne_eq_false_iff_eq]

theorem startLine_mono {i j : Nat} (hi : p.labels[i]? = some l) (hj : p.labels[j]? = some m)
    (hij : i ≤ j) : l.startLine ≤ m.startLine := by
  have hl := List.mem_of_getElem? hi
  have hm := List.mem_of_getElem? hj
  refine (start_onLine hl).le_of_le (start_onLine hm) ?_
  rcases Nat.lt_or_eq_of_le hij with hlt | rfl
  · obtain ⟨hib, rfl⟩ := List.getElem?_eq_some_iff.mp hi
    obtain ⟨hjb, rfl⟩ := List.getElem?_eq_some_iff.mp hj
    exact List.pairwise_iff_getElem.mp p.sorted i j hib hjb hlt
  · cases hi.symm.trans hj
    exact Nat.le_refl _

theorem bounds_of_startLine {line : Line} (h : l ∈ p.labels)
    (hline : p.source.lines[l.startLine]? = some line) :
    line.byteOffset ≤ l.label.span.start ∧ l.label.span.start ≤ line.byteEnd :=
  Source.bounds_of_startLine (p.lines_eq l h) hline

theorem stop_le_byteEnd {line : Line} (h : l ∈ p.labels)
    (hline : p.source.lines[l.endLine]? = some line) : l.label.span.stop ≤ line.byteEnd :=
  (Source.bounds_of_endLine (p.lines_eq l h) hline).2

/-- The part of a label that is marked on a line, if there is one. -/
def markOf (p : Placement) (index : Int) (l : Placed) : Option Span :=
  (p.source.mark? index l.label.span l.startLine l.endLine).toOption.join

theorem startLine_lt_length (h : l ∈ p.labels) : l.startLine < p.source.lines.length :=
  (start_onLine h).lt_length

theorem endLine_lt_length (h : l ∈ p.labels) : l.endLine < p.source.lines.length :=
  (last_onLine h).lt_length

/-- Marking never fails. -/
theorem mark?_eq_ok (h : l ∈ p.labels) (index : Int) :
    p.source.mark? index l.label.span l.startLine l.endLine = .ok (p.markOf index l) := by
  obtain ⟨mark, hmark⟩ := Source.exists_mark? (p.lines_eq l h) index
  simp [markOf, hmark, Except.toOption]

theorem markOf_on_line {i : Nat} {line : Line} (h : l ∈ p.labels)
    (hline : p.source.lines[i]? = some line) (hi : i = l.startLine ∨ i = l.endLine) :
    ∃ mark : Span, p.markOf i l = some mark ∧
      line.byteOffset + mark.start =
        (if i = l.startLine then l.label.span.start else line.byteOffset) ∧
      line.byteOffset + mark.stop = (if i = l.endLine then l.label.span.stop else line.byteEnd) := by
  obtain ⟨mark, hmark, hbounds⟩ := Source.mark?_on_line (p.lines_eq l h) hline hi
  exact ⟨mark, by simp [markOf, hmark, Except.toOption], hbounds⟩

theorem markOf_off_line {index : Int} (hs : index ≠ l.startLine) (he : index ≠ l.endLine) :
    p.markOf index l = none := by
  simp [markOf, Source.mark?, hs, he, Except.toOption]

theorem markOf_isSome_iff {i : Nat} (h : l ∈ p.labels) :
    (p.markOf i l).isSome ↔ i = l.startLine ∨ i = l.endLine := by
  constructor
  · intro hsome
    by_contra hout
    rw [markOf_off_line (by omega) (by omega)] at hsome
    cases hsome
  · intro hi
    have hlt : i < p.source.lines.length := by
      rcases hi with rfl | rfl
      · exact startLine_lt_length h
      · exact endLine_lt_length h
    obtain ⟨line, hline⟩ := Source.exists_line hlt
    obtain ⟨mark, hmark, _⟩ := markOf_on_line h hline hi
    rw [hmark]
    rfl

theorem markOf_stop_le {i : Nat} {line : Line} {mark : Span} (h : l ∈ p.labels)
    (hline : p.source.lines[i]? = some line) (hmark : p.markOf i l = some mark) :
    mark.stop ≤ line.byteLen := by
  have hi := (markOf_isSome_iff h).mp (by rw [hmark]; rfl)
  obtain ⟨found, hfound, _, hstop⟩ := markOf_on_line h hline hi
  cases hmark.symm.trans hfound
  have hend : line.byteEnd = line.byteOffset + line.byteLen := rfl
  split at hstop
  next he =>
    subst he
    have := stop_le_byteEnd h hline
    omega
  next => omega

/-- The marks of a line are those of its labels, in the order of the labels. -/
theorem marks_eq (p : Placement) (index : Int) :
    p.marks index = .ok (p.labels.zipIdx.filterMap fun m => (p.markOf index m.1).map (m.2, ·)) := by
  have hmap : p.labels.zipIdx.mapM (fun m => do
      return (← p.source.mark? index m.1.label.span m.1.startLine m.1.endLine).map (m.2, ·)) =
      .ok (p.labels.zipIdx.map fun m => (p.markOf index m.1).map (m.2, ·)) := by
    apply mapM_eq_ok_map
    intro m hm
    rw [mark?_eq_ok (List.fst_mem_of_mem_zipIdx hm) index]
    rfl
  rw [marks]
  refine bind_eq_ok_iff.mpr ⟨_, hmap, ?_⟩
  rw [List.filterMap_map]
  rfl

theorem touching_eq (p : Placement) (index : Int) :
    p.touching index = p.labels.zipIdx.filterMap fun m => (p.markOf index m.1).map (m.2, ·) := by
  rw [touching, marks_eq]
  rfl

theorem marks_eq_touching (p : Placement) (index : Int) :
    p.marks index = .ok (p.touching index) := by
  rw [marks_eq, touching_eq]

theorem mem_touching_iff {index : Int} {i : Nat} {mark : Span} :
    (i, mark) ∈ p.touching index ↔ ∃ l, p.labels[i]? = some l ∧ p.markOf index l = some mark := by
  simp only [touching_eq, List.mem_filterMap, Prod.exists, List.mem_zipIdx_iff_getElem?,
    Option.map_eq_some_iff, Prod.mk.injEq]
  constructor
  · rintro ⟨l, _, hl, _, hm, rfl, rfl⟩
    exact ⟨l, hl, hm⟩
  · rintro ⟨l, hl, hm⟩
    exact ⟨l, i, hl, mark, hm, rfl, rfl⟩

theorem zipIdx_increasing {α : Type} (xs : List α) : xs.zipIdx.Pairwise fun a b => a.2 < b.2 := by
  have hrange := List.pairwise_lt_range (n := xs.length)
  rw [List.range_eq_range', ← List.zipIdx_map_snd 0 xs] at hrange
  exact List.pairwise_map.mp hrange

theorem touching_increasing (p : Placement) (index : Int) :
    (p.touching index).Pairwise fun a b => a.1 < b.1 := by
  rw [touching_eq, List.pairwise_filterMap]
  refine (zipIdx_increasing p.labels).imp ?_
  intro a b hlt x hx y hy
  obtain ⟨_, _, rfl⟩ := Option.map_eq_some_iff.mp hx
  obtain ⟨_, _, rfl⟩ := Option.map_eq_some_iff.mp hy
  exact hlt

theorem mem_relevantLines_iff {line : Nat} :
    line ∈ p.relevantLines ↔ ∃ l ∈ p.labels, l.startLine = line ∨ l.endLine = line := by
  simp only [relevantLines, List.mem_filter, List.mem_range, List.any_eq_true, Bool.or_eq_true,
    beq_iff_eq, and_iff_right_iff_imp]
  rintro ⟨l, hl, rfl | rfl⟩
  · exact startLine_lt_length hl
  · exact endLine_lt_length hl

theorem relevantLines_increasing (p : Placement) : p.relevantLines.Pairwise (· < ·) :=
  List.pairwise_lt_range.filter _

theorem ofLabels_eq_ok {source : Source} {labels : List Label} {p : Placement}
    (h : ofLabels source labels = .ok p) :
    p.source = source ∧ p.labels.map Placed.label = sortLabels labels := by
  unfold ofLabels at h
  split at h
  next => cases h
  next placed hplaced =>
    cases h
    exact ⟨rfl, (mapM_place_eq_ok hplaced).1⟩

theorem mem_sortLabels {label : Label} {labels : List Label} :
    label ∈ sortLabels labels ↔ label ∈ labels :=
  (List.mergeSort_perm labels _).mem_iff

/-- The placed labels are those that were supplied. -/
theorem mem_labels_iff {source : Source} {labels : List Label} {p : Placement}
    (h : ofLabels source labels = .ok p) {label : Label} :
    label ∈ labels ↔ ∃ l ∈ p.labels, l.label = label := by
  rw [← mem_sortLabels, ← (ofLabels_eq_ok h).2, List.mem_map]

theorem place_eq_error_iff {source : Source} {label : Label} {e : Error} :
    place source label = .error e ↔ source.byteLen < label.span.stop ∧
      e = .spanOutside label.span (.pastEnd source.byteLen) := by
  rw [place, bind_eq_error_iff, Source.spanLines_eq_error_iff]
  refine or_iff_left ?_
  rintro ⟨_, _, herror⟩
  cases herror

theorem exists_ofLabels_iff {source : Source} {labels : List Label} :
    (∃ p, ofLabels source labels = .ok p) ↔ ∀ l ∈ labels, l.span.stop ≤ source.byteLen := by
  constructor
  · rintro ⟨p, hp⟩ label hlabel
    obtain ⟨l, hl, rfl⟩ := (mem_labels_iff hp).mp hlabel
    obtain ⟨rfl, _⟩ := ofLabels_eq_ok hp
    exact stop_le_byteLen hl
  · intro hfit
    unfold ofLabels
    split
    next e he =>
      obtain ⟨label, hlabel, hplace⟩ := mapM_eq_error he
      have := hfit label (mem_sortLabels.mp hlabel)
      have := (place_eq_error_iff.mp hplace).1
      omega
    next placed _ => exact ⟨_, rfl⟩

theorem ofLabels_eq_error {source : Source} {labels : List Label} {e : Error}
    (h : ofLabels source labels = .error e) :
    ∃ label ∈ labels, e = .spanOutside label.span (.pastEnd source.byteLen) := by
  unfold ofLabels at h
  split at h
  next cause hcause =>
    cases h
    obtain ⟨label, hlabel, hplace⟩ := mapM_eq_error hcause
    exact ⟨label, mem_sortLabels.mp hlabel, (place_eq_error_iff.mp hplace).2⟩
  next => cases h

end Placement

end Callout

import Callout.Layout.Block
import Callout.Proofs.LineFragments

namespace Callout

/-- The columns of a label on a line are counted in the characters of that line, the last one only as
far as the line is shown. -/
structure Target.ShowsIn (t : Target) (slice : List Char) : Prop where
  start : ∃ left right, slice = left ++ right ∧ byteWidth left = t.span.start ∧
    t.startColumn = left.length
  stop : ∃ left right, slice = left ++ right ∧ byteWidth left = t.span.stop ∧
    t.endColumn = min left.length (dropTerminators slice).length

namespace Placement

variable {p : Placement} {i : Nat} {line : Line} {slice : List Char}

theorem mem_singles {marks : List (Nat × Span)} {m : Nat × Span} {label : Label} :
    (m, label) ∈ p.singles marks ↔
      m ∈ marks ∧ ∃ l, p.labels[m.1]? = some l ∧ l.isMultiline = false ∧ l.label = label := by
  simp only [singles, List.mem_filterMap, Option.bind_eq_some_iff, Option.ite_none_left_eq_some,
    Option.some.injEq, Prod.mk.injEq, Bool.not_eq_true]
  constructor
  · rintro ⟨m, hm, l, hl, hone, rfl, rfl⟩
    exact ⟨hm, l, hl, hone, rfl⟩
  · rintro ⟨hm, l, hl, hone, rfl⟩
    exact ⟨m, hm, l, hl, hone, rfl, rfl⟩

theorem mem_singles_iff {j : Nat} {mark : Span} {label : Label} :
    ((j, mark), label) ∈ p.singles (p.touching i) ↔ ∃ l, p.labels[j]? = some l ∧
      l.isMultiline = false ∧ l.label = label ∧ p.markOf i l = some mark := by
  rw [mem_singles, mem_touching_iff]
  constructor
  · rintro ⟨⟨l, hl, hmark⟩, l', hl', hone, hlabel⟩
    cases hl.symm.trans hl'
    exact ⟨l, hl, hone, hlabel, hmark⟩
  · rintro ⟨l, hl, hone, hlabel, hmark⟩
    exact ⟨⟨l, hl, hmark⟩, l, hl, hone, hlabel⟩

theorem singles_pairwise {marks : List (Nat × Span)} (h : marks.Pairwise fun a b => a.1 < b.1) :
    (p.singles marks).Pairwise fun a b => a.1.1 < b.1.1 := by
  rw [singles, List.pairwise_filterMap]
  refine h.imp ?_
  intro a b hlt x hx y hy
  obtain ⟨l, _, hx⟩ := Option.bind_eq_some_iff.mp hx
  obtain ⟨m, _, hy⟩ := Option.bind_eq_some_iff.mp hy
  simp only [Option.ite_none_left_eq_some, Option.some.injEq] at hx hy
  obtain ⟨_, rfl⟩ := hx
  obtain ⟨_, rfl⟩ := hy
  exact hlt

theorem singles_increasing (p : Placement) (index : Int) :
    (p.singles (p.touching index)).Pairwise fun a b => a.1.1 < b.1.1 :=
  singles_pairwise (p.touching_increasing index)

theorem columnAt_of_isBoundary {x : Nat} (hline : p.source.lines[i]? = some line)
    (hslice : p.source.lineSlice i = .ok slice) (hx : IsBoundary slice x) :
    ∃ left right, slice = left ++ right ∧ byteWidth left = x ∧
      p.columnAt line x = .ok left.length := by
  obtain ⟨left, right, rfl, hleft⟩ := hx
  have htext := Source.textBetween_slice_start hline hslice hleft
  exact ⟨left, right, rfl, hleft, by rw [columnAt, htext]; rfl⟩

/-- A label whose bounds on a line are boundaries of characters has columns there. -/
theorem target_of_isBoundary {single : (Nat × Span) × Label} (hline : p.source.lines[i]? = some line)
    (hslice : p.source.lineSlice i = .ok slice) (hstart : IsBoundary slice single.1.2.start)
    (hstop : IsBoundary slice single.1.2.stop) :
    ∃ t, p.target line (dropTerminators slice).length single = .ok t ∧
      ((t.index, t.span), t.label) = single ∧ t.ShowsIn slice := by
  obtain ⟨⟨j, mark⟩, label⟩ := single
  obtain ⟨left, right, hsplit, hleft, hstart⟩ := columnAt_of_isBoundary hline hslice hstart
  obtain ⟨left', right', hsplit', hleft', hstop⟩ := columnAt_of_isBoundary hline hslice hstop
  refine ⟨⟨j, label, mark, left.length, min left'.length (dropTerminators slice).length⟩, ?_, rfl,
    ⟨left, right, hsplit, hleft, rfl⟩, ⟨left', right', hsplit', hleft', rfl⟩⟩
  simp only [target, hstart, hstop]
  rfl

theorem targets_of_isBoundary {marks : List (Nat × Span)} (hline : p.source.lines[i]? = some line)
    (hslice : p.source.lineSlice i = .ok slice)
    (h : ∀ s ∈ p.singles marks, IsBoundary slice s.1.2.start ∧ IsBoundary slice s.1.2.stop) :
    ∃ targets, p.targets i marks = .ok targets ∧
      List.Forall₂ (fun s t => ((t.index, t.span), t.label) = s ∧ t.ShowsIn slice)
        (p.singles marks) targets := by
  rw [targets, Source.line_eq_ok_iff.mpr hline, hslice]
  exact exists_mapM_eq_ok fun s hs =>
    target_of_isBoundary hline hslice (h s hs).1 (h s hs).2

theorem targets_of_alignedOn (hline : p.source.lines[i]? = some line)
    (hslice : p.source.lineSlice i = .ok slice) (haligned : p.AlignedOn i) :
    ∃ targets, p.targets i (p.touching i) = .ok targets ∧
      List.Forall₂ (fun s t => ((t.index, t.span), t.label) = s ∧ t.ShowsIn slice)
        (p.singles (p.touching i)) targets := by
  refine targets_of_isBoundary hline hslice ?_
  rintro ⟨⟨j, mark⟩, label⟩ hs
  obtain ⟨l, hl, _, _, hmark⟩ := mem_singles_iff.mp hs
  have hl := List.mem_of_getElem? hl
  exact (isBoundary_mark_iff hline hslice hl hmark).mpr (haligned l hl)

end Placement

end Callout

import Callout.Proofs.ShiftedReport

namespace Callout

theorem Diagnostic.shift_zero (d : Diagnostic) : d.shift 0 = d := by
  have hlabels : d.labels.map (Label.shift 0) = d.labels := List.map_id'' (fun _ => rfl) _
  rw [Diagnostic.shift, hlabels]

theorem Source.isShift_of_tables {s t : Source}
    (h : s.lines.map (fun l => (l.byteOffset, l.byteLen)) =
      t.lines.map fun l => (l.byteOffset, l.byteLen)) : s.IsShift 0 0 t := by
  have hlength := congrArg List.length h
  rw [List.length_map, List.length_map] at hlength
  refine ⟨hlength.symm, fun i line hline => ?_⟩
  have hget : (t.lines[i]?).map (fun l => (l.byteOffset, l.byteLen)) =
      some (line.byteOffset, line.byteLen) := by
    rw [← List.getElem?_map, ← h, List.getElem?_map, hline, Option.map_some]
  obtain ⟨line', hline', heq⟩ := Option.map_eq_some_iff.mp hget
  obtain ⟨hoffset, hlen⟩ := Prod.mk.inj heq
  exact ⟨line', hline', hoffset, hlen⟩

theorem Placement.IsShift.gutterWidth_eq {p q : Placement} {n : Nat} (h : IsShift n 0 p q) :
    q.gutterWidth = p.gutterWidth := by
  have hlines : q.relevantLines = p.relevantLines :=
    h.relevantLines_eq.trans (List.map_id'' Nat.add_zero _)
  rw [gutterWidth, gutterWidth, hlines]

/-- Two sources with the same table of lines in bytes, and the same texts on the lines that hold the
start or the end of a label, have the same report: the same text, or the same cause that there is
none. What the other lines say, also those inside labels of several lines, is not shown. -/
theorem render_eq_of_relevant_lines {catalog catalog' : Catalog} {d : Diagnostic} {s t : Source}
    (hs : catalog.find? d.sourceId = some s) (ht : catalog'.find? d.sourceId = some t)
    (htable : s.lines.map (fun l => (l.byteOffset, l.byteLen)) =
      t.lines.map fun l => (l.byteOffset, l.byteLen))
    (hslices : ∀ label ∈ d.labels, ∀ first last : Nat, s.spanLines label.span = .ok (first, last) →
      t.lineSlice first = s.lineSlice first ∧ t.lineSlice last = s.lineSlice last) :
    render catalog' d = render catalog d := by
  by_cases hlabels : d.labels = []
  · have hcanvas : ∀ c, Canvas.ofDiagnostic c d = .ok ⟨d, none⟩ := by
      intro c
      rw [Canvas.ofDiagnostic, hlabels]
      rfl
    rw [render, render, hcanvas, hcanvas]
  have hreport := report_shift hlabels hs ht (Source.isShift_of_tables htable) hslices
  rw [Diagnostic.shift_zero] at hreport
  rcases hreport with ⟨p, q, locus, content, hp, hq, hshift, _, hrows, hrows'⟩ | ⟨e, he, he'⟩
  · have hcontent : content.map (Row.shift 0) = content := List.map_id'' Row.shift_zero content
    have hgutter : (⟨d, some q⟩ : Canvas).gutter = (⟨d, some p⟩ : Canvas).gutter :=
      hshift.gutterWidth_eq
    rw [hcontent] at hrows'
    rw [render_of_rows_ok hp hrows, render_of_rows_ok hq hrows', Canvas.text, Canvas.text, hgutter]
    rfl
  · rw [he, he', Error.shift_zero]

/-- Lines of two letters again, with other letters on the second line. -/
def otherLetters : Source :=
  Source.ofText ['a', 'b', '\n', 'x', 'y', '\n', 'e', 'f']

/-- A label from the first line to the last. -/
def spanning : Diagnostic where
  sourceId := .name "letters"
  severity := .error
  message := "spanning"
  labels := [⟨⟨1, 8, by omega⟩, "all", .default⟩]

theorem spanning_eq : letters.text ≠ otherLetters.text ∧
    render ⟨[(.name "letters", otherLetters)]⟩ spanning =
      render ⟨[(.name "letters", letters)]⟩ spanning := by
  refine ⟨by decide, ?_⟩
  refine render_eq_of_relevant_lines (s := letters) (t := otherLetters) rfl rfl (by decide) ?_
  intro label hlabel first last hlines
  obtain rfl := List.mem_singleton.mp hlabel
  have hspan : letters.spanLines ⟨1, 8, by omega⟩ = .ok (0, 2) := by decide
  cases hspan.symm.trans hlines
  exact ⟨by decide, by decide⟩

end Callout

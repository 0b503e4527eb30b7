import Callout.Proofs.DrawnLines

namespace Callout

/-- Whether a span ends in a source and cuts none of its characters. -/
def Span.FitsIn (s : Span) (source : Source) : Prop :=
  s.stop ≤ source.byteLen ∧ IsBoundary source.text s.start ∧ IsBoundary source.text s.stop

instance (s : Span) (source : Source) : Decidable (s.FitsIn source) :=
  inferInstanceAs (Decidable (_ ∧ _ ∧ _))

/-- Whether all labels of a diagnostic fit a source. -/
def Diagnostic.FitsIn (d : Diagnostic) (source : Source) : Prop :=
  ∀ l ∈ d.labels, l.span.FitsIn source

instance (d : Diagnostic) (source : Source) : Decidable (d.FitsIn source) :=
  inferInstanceAs (Decidable (∀ l ∈ d.labels, l.span.FitsIn source))

namespace Canvas

variable {catalog : Catalog} {d : Diagnostic} {p : Placement}

theorem ofDiagnostic_eq_ok {c : Canvas} (h : d.labels ≠ []) :
    ofDiagnostic catalog d = .ok c ↔ ∃ source p, catalog.find? d.sourceId = some source ∧
      Placement.ofLabels source d.labels = .ok p ∧ c = ⟨d, some p⟩ := by
  have hempty : d.labels.isEmpty = false := List.isEmpty_eq_false_iff.mpr h
  rw [ofDiagnostic, hempty, if_neg (by simp)]
  simp only [bind_eq_ok_iff, pure_eq_ok, Except.ok.injEq, Catalog.get]
  constructor
  · rintro ⟨source, hsource, p, hp, rfl⟩
    split at hsource
    next found hfound =>
      cases hsource
      exact ⟨source, p, hfound, hp, rfl⟩
    next => cases hsource
  · rintro ⟨source, p, hsource, hp, rfl⟩
    exact ⟨source, by rw [hsource], p, hp, rfl⟩

/-- A canvas with a placement has the labels of its diagnostic, on the source that it names. -/
theorem placed (h : ofDiagnostic catalog d = .ok ⟨d, some p⟩) : d.labels ≠ [] ∧
    catalog.find? d.sourceId = some p.source ∧ Placement.ofLabels p.source d.labels = .ok p := by
  have hlabels : d.labels ≠ [] := by
    intro hnil
    rw [ofDiagnostic, hnil] at h
    cases h
  obtain ⟨source, q, hsource, hq, heq⟩ := (ofDiagnostic_eq_ok hlabels).mp h
  cases heq
  obtain ⟨rfl, _⟩ := Placement.ofLabels_eq_ok hq
  exact ⟨hlabels, hsource, hq⟩

theorem border_eq (d : Diagnostic) {first : Placed} {rest : List Placed}
    (h : p.labels = first :: rest) :
    (⟨d, some p⟩ : Canvas).border = (p.source.locus first.label.span).map fun locus =>
      ⟨.border, Cell.plain s!"{d.sourceId.shown}:{locus.line}:{locus.column}"⟩ := by
  have hlocus : (⟨d, some p⟩ : Canvas).locus = p.source.locus first.label.span := by
    simp only [Canvas.locus, Placement.locus, h]
  rw [border, hlocus]
  cases p.source.locus first.label.span <;> rfl

/-- A report with aligned labels has its rows: above and below the lines, one chunk for each of the
lines. -/
theorem rows_of_aligned (d : Diagnostic) (hne : p.labels ≠ []) (h : p.Aligned) :
    ∃ border chunks, (⟨d, some p⟩ : Canvas).rows = .ok ([header ⟨d, some p⟩, border] ++
        chunks.flatten ++ [emptyRow] ++ notes ⟨d, some p⟩ ++ [footer]) ∧ border.role = .border ∧
      List.Forall₂ (p.IsChunk d.config) p.relevantLines chunks := by
  obtain ⟨first, rest, hlabels⟩ := List.exists_cons_of_ne_nil hne
  have hfirst : first ∈ p.labels := by simp [hlabels]
  obtain ⟨locus, hlocus⟩ := Placement.locus_of_isBoundary hfirst (h first hfirst).1
  obtain ⟨chunks, hchunks, hall⟩ := Placement.blocks_of_alignedOn d.config none
    (show p.relevantLines = [] ++ p.relevantLines ++ [] by simp)
    (Placement.aligned_iff.mp h)
  rw [List.append_nil, Placement.reached_relevantLines] at hchunks
  have hcontent : (⟨d, some p⟩ : Canvas).content [] = ⟨[], .ok chunks.flatten⟩ := hchunks
  refine ⟨⟨.border, Cell.plain s!"{d.sourceId.shown}:{locus.line}:{locus.column}"⟩, chunks, ?_, rfl,
    hall⟩
  simp only [rows, border_eq d hlabels, hlocus, hcontent, Except.map, bind, Except.bind, pure,
    Except.pure]

theorem rows_of_not_aligned (d : Diagnostic) (hne : p.labels ≠ []) (h : ¬p.Aligned) :
    ∃ span, (⟨d, some p⟩ : Canvas).rows = .error (.spanOutside span .misaligned) := by
  obtain ⟨first, rest, hlabels⟩ := List.exists_cons_of_ne_nil hne
  have hfirst : first ∈ p.labels := by simp [hlabels]
  by_cases hb : IsBoundary p.source.text first.label.span.start
  · obtain ⟨locus, hlocus⟩ := Placement.locus_of_isBoundary hfirst hb
    obtain ⟨span, hspan⟩ := Placement.blocks_of_not_alignedOn d.config none
      (show p.relevantLines = [] ++ p.relevantLines by simp)
      (fun hall => h (Placement.aligned_iff.mpr hall))
    rw [Placement.reached_relevantLines] at hspan
    have hcontent : ((⟨d, some p⟩ : Canvas).content []).rows =
      .error (.spanOutside span .misaligned) := hspan
    refine ⟨span, ?_⟩
    simp only [rows, border_eq d hlabels, hlocus, hcontent, Except.map, bind, Except.bind]
  · obtain ⟨span, hspan⟩ := Placement.locus_of_not_isBoundary hfirst hb
    refine ⟨span, ?_⟩
    simp only [rows, border_eq d hlabels, hspan, Except.map, bind, Except.bind]

end Canvas

variable {catalog : Catalog} {d : Diagnostic}

theorem render_of_no_labels (catalog : Catalog) (h : d.labels = []) :
    ∃ text, render catalog d = .ok text := by
  have hcanvas : Canvas.ofDiagnostic catalog d = .ok ⟨d, none⟩ := by
    rw [Canvas.ofDiagnostic, h]
    rfl
  rw [render, hcanvas]
  exact ⟨_, rfl⟩

theorem render_of_unknown_source (h : d.labels ≠ []) (hsource : catalog.find? d.sourceId = none) :
    render catalog d = .error (.unknownSource d.sourceId) := by
  have hempty : d.labels.isEmpty = false := List.isEmpty_eq_false_iff.mpr h
  rw [render, Canvas.ofDiagnostic, hempty, if_neg (by simp), Catalog.get, hsource]
  rfl

theorem render_of_rows_ok {c : Canvas} {rows : List Row}
    (hcanvas : Canvas.ofDiagnostic catalog d = .ok c) (hrows : c.rows = .ok rows) :
    render catalog d = .ok (String.ofList (c.text rows)) := by
  rw [render, hcanvas]
  simp only [bind, Except.bind, hrows, pure, Except.pure]

/-- Labels that cannot be placed are refused, for the cause that they cannot. -/
theorem render_of_refused {source : Source} {e : Error} (h : d.labels ≠ [])
    (hsource : catalog.find? d.sourceId = some source)
    (he : Placement.ofLabels source d.labels = .error e) : render catalog d = .error e := by
  have hempty : d.labels.isEmpty = false := List.isEmpty_eq_false_iff.mpr h
  rw [render, Canvas.ofDiagnostic, hempty, if_neg (by simp), Catalog.get, hsource]
  simp only [he, bind, Except.bind]

theorem render_of_rows {p : Placement} {source : Source} (h : d.labels ≠ [])
    (hsource : catalog.find? d.sourceId = some source)
    (hp : Placement.ofLabels source d.labels = .ok p) :
    render catalog d = (⟨d, some p⟩ : Canvas).rows.map fun rows =>
      String.ofList ((⟨d, some p⟩ : Canvas).text rows) := by
  rw [render, (Canvas.ofDiagnostic_eq_ok h).mpr ⟨source, p, hsource, hp, rfl⟩]
  cases hrows : (⟨d, some p⟩ : Canvas).rows <;>
    simp [bind, Except.bind, hrows, Except.map, pure, Except.pure]

/-- Labels that could be placed fit their source when they are aligned. -/
theorem fitsIn_iff {p : Placement} {source : Source}
    (hp : Placement.ofLabels source d.labels = .ok p) : d.FitsIn source ↔ p.Aligned := by
  have hlabels : ∀ label, label ∈ d.labels ↔ ∃ l ∈ p.labels, l.label = label :=
    fun label => Placement.mem_labels_iff hp
  obtain ⟨rfl, _⟩ := Placement.ofLabels_eq_ok hp
  constructor
  · intro hfit l hl
    exact (hfit l.label ((hlabels l.label).mpr ⟨l, hl, rfl⟩)).2
  · intro haligned label hlabel
    obtain ⟨l, hl, rfl⟩ := (hlabels label).mp hlabel
    exact ⟨Placement.stop_le_byteLen hl, haligned l hl⟩

theorem labels_ne_nil {p : Placement} {source : Source} (h : d.labels ≠ [])
    (hp : Placement.ofLabels source d.labels = .ok p) : p.labels ≠ [] := by
  obtain ⟨label, hlabel⟩ := List.exists_mem_of_ne_nil d.labels h
  obtain ⟨l, hl, _⟩ := (Placement.mem_labels_iff hp).mp hlabel
  exact List.ne_nil_of_mem hl

/-- On a known source, labels that all fit are drawn, and labels that do not all fit are refused. -/
theorem render_of_source {source : Source} (h : d.labels ≠ [])
    (hsource : catalog.find? d.sourceId = some source) :
    (d.FitsIn source ∧ ∃ text, render catalog d = .ok text) ∨
      (¬d.FitsIn source ∧ ∃ span fault, render catalog d = .error (.spanOutside span fault)) := by
  cases hp : Placement.ofLabels source d.labels with
  | error e =>
    right
    obtain ⟨label, _, rfl⟩ := Placement.ofLabels_eq_error hp
    refine ⟨?_, label.span, .pastEnd source.byteLen, ?_⟩
    · intro hfit
      obtain ⟨p, hok⟩ := Placement.exists_ofLabels_iff.mpr fun l hl => (hfit l hl).1
      cases hok.symm.trans hp
    · exact render_of_refused h hsource hp
  | ok p =>
    have hne := labels_ne_nil h hp
    rw [fitsIn_iff hp, render_of_rows h hsource hp]
    by_cases haligned : p.Aligned
    · left
      obtain ⟨border, chunks, hrows, _⟩ := Canvas.rows_of_aligned d hne haligned
      exact ⟨haligned, _, by rw [hrows]; rfl⟩
    · right
      obtain ⟨span, hrows⟩ := Canvas.rows_of_not_aligned d hne haligned
      exact ⟨haligned, span, .misaligned, by rw [hrows]; rfl⟩

/-- What is known of the labels of a diagnostic that was drawn. -/
theorem placement_of_render {text : String} {p : Placement} (h : render catalog d = .ok text)
    (hcanvas : Canvas.ofDiagnostic catalog d = .ok ⟨d, some p⟩) :
    p.labels ≠ [] ∧ p.Aligned ∧ p.labels.map Placed.label = sortLabels d.labels := by
  obtain ⟨hlabels, hsource, hq⟩ := Canvas.placed hcanvas
  refine ⟨labels_ne_nil hlabels hq, ?_, (Placement.ofLabels_eq_ok hq).2⟩
  by_contra hnot
  obtain ⟨span, hrows⟩ := Canvas.rows_of_not_aligned d (labels_ne_nil hlabels hq) hnot
  rw [render_of_rows hlabels hsource hq, hrows] at h
  cases h

theorem exists_render_of_fitsIn {source : Source} (h : d.labels ≠ [])
    (hsource : catalog.find? d.sourceId = some source) (hfit : d.FitsIn source) :
    ∃ text p, render catalog d = .ok text ∧
      Canvas.ofDiagnostic catalog d = .ok ⟨d, some p⟩ := by
  obtain ⟨p, hp⟩ := Placement.exists_ofLabels_iff.mpr fun l hl => (hfit l hl).1
  rcases render_of_source h hsource with ⟨_, text, htext⟩ | ⟨hnot, _⟩
  · exact ⟨text, p, htext, (Canvas.ofDiagnostic_eq_ok h).mpr ⟨source, p, hsource, hp, rfl⟩⟩
  · exact absurd hfit hnot

/-- Three lines of two letters. -/
def letters : Source :=
  Source.ofText ['a', 'b', '\n', 'c', 'd', '\n', 'e', 'f']

/-- Two labels that cross in the second line, and one that lies in it. -/
def crossing : Diagnostic where
  sourceId := .name "letters"
  severity := .error
  message := "crossing"
  labels := [⟨⟨3, 8, by omega⟩, "second", .default⟩, ⟨⟨0, 5, by omega⟩, "first", .default⟩,
    ⟨⟨4, 5, by omega⟩, "inner", .default⟩]

theorem crossing_rendered : ∃ text p,
    render ⟨[(.name "letters", letters)]⟩ crossing = .ok text ∧
      Canvas.ofDiagnostic ⟨[(.name "letters", letters)]⟩ crossing = .ok ⟨crossing, some p⟩ := by
  have hsource : Catalog.find? ⟨[(.name "letters", letters)]⟩ crossing.sourceId = some letters := rfl
  have hfit : crossing.FitsIn letters := by decide
  exact exists_render_of_fitsIn (by decide) hsource hfit

/-- Every diagnostic is drawn, or its source is unknown, or a span does not fit the source; no step
in between can fail otherwise. -/
theorem render_outcome (catalog : Catalog) (d : Diagnostic) :
    ((∃ text, render catalog d = .ok text) ↔
      d.labels = [] ∨ ∃ source, catalog.find? d.sourceId = some source ∧ d.FitsIn source) ∧
    (render catalog d = .error (.unknownSource d.sourceId) ↔
      d.labels ≠ [] ∧ catalog.find? d.sourceId = none) ∧
    ((∃ span fault, render catalog d = .error (.spanOutside span fault)) ↔
      d.labels ≠ [] ∧ ∃ source, catalog.find? d.sourceId = some source ∧ ¬d.FitsIn source) ∧
    ((∃ text, render catalog d = .ok text) ∨
      render catalog d = .error (.unknownSource d.sourceId) ∨
      ∃ span fault, render catalog d = .error (.spanOutside span fault)) := by
  by_cases hlabels : d.labels = []
  · obtain ⟨text, htext⟩ := render_of_no_labels catalog hlabels
    simp [htext, hlabels]
  cases hsource : catalog.find? d.sourceId with
  | none =>
    have herror := render_of_unknown_source hlabels hsource
    simp [herror, hlabels]
  | some source =>
    rcases render_of_source hlabels hsource with ⟨hfit, text, htext⟩ | ⟨hfit, span, fault, herror⟩
    · simp [htext, hlabels, hfit]
    · simp [herror, hlabels, hfit]

end Callout

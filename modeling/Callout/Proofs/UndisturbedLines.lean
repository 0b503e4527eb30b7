import Callout.Proofs.AddedLabel
import Callout.Proofs.Framing
import Callout.Proofs.LabelOrder
import Callout.Proofs.StackedBlocks

namespace Callout

/-- An increasing list falls apart at a number: what is below it, the number or not, what is above. -/
theorem increasing_split {xs : List Nat} (h : xs.Pairwise (· < ·)) (n : Nat) :
    xs = xs.filter (· < n) ++ (if n ∈ xs then [n] else []) ++ xs.filter (n < ·) := by
  have hbelow : ∀ a ∈ xs.filter (· < n), a < n := fun a ha => of_decide_eq_true (List.mem_filter.mp ha).2
  have habove : ∀ a ∈ xs.filter (n < ·), n < a := fun a ha => of_decide_eq_true (List.mem_filter.mp ha).2
  have hmiddle : ∀ a, a ∈ (if n ∈ xs then [n] else []) ↔ a ∈ xs ∧ a = n := by
    intro a
    split
    next hmem =>
      rw [List.mem_singleton]
      exact ⟨fun heq => ⟨heq ▸ hmem, heq⟩, And.right⟩
    next hnot => exact ⟨fun ha => absurd ha List.not_mem_nil, fun ha => absurd (ha.2 ▸ ha.1) hnot⟩
  have hone : (if n ∈ xs then [n] else []).Pairwise (· < ·) := by
    split <;> simp
  apply eq_of_increasing (f := id) h
  · refine List.pairwise_append.mpr ⟨List.pairwise_append.mpr ⟨h.filter _, hone, ?_⟩, h.filter _, ?_⟩
    · intro a ha b hb
      rw [((hmiddle b).mp hb).2]
      exact hbelow a ha
    · intro a ha b hb
      rcases List.mem_append.mp ha with ha | ha
      · exact Nat.lt_trans (hbelow a ha) (habove b hb)
      · rw [((hmiddle a).mp ha).2]
        exact habove b hb
  · intro a
    simp only [List.mem_append, hmiddle, List.mem_filter, decide_eq_true_eq, ← and_or_left]
    exact (and_iff_left (by omega)).symm

/-- The index of the label that a row is for is not shown. -/
theorem Row.cells_rename_past (k gutter : Nat) (row : Row) :
    (row.rename (.past k)).cells gutter = row.cells gutter := by
  obtain ⟨role, body⟩ := row
  cases role <;> rfl

theorem rowsText_rename_past (chars : CharSet) (colors : Bool) (gutter k : Nat) (rows : List Row) :
    rowsText chars colors gutter (rows.map (Row.rename (.past k))) =
      rowsText chars colors gutter rows := by
  rw [rowsText, rowsText, List.flatMap_map]
  congr 1
  funext row
  rw [Row.text, Row.text, Row.cells_rename_past]

namespace Placement

/-- The rows of the lines above one. -/
def rowsAbove (p : Placement) (config : Config) (line : Nat) : List Row :=
  p.stack config none (p.relevantLines.filter (· < line))

/-- The rows of the lines below one. -/
def rowsBelow (p : Placement) (config : Config) (line : Nat) : List Row :=
  p.stack config none (p.relevantLines.filter (line < ·))

/-- The block of a line, if it is drawn, and a gap row on either side of it or none. -/
def IsMiddle (p : Placement) (config : Config) (line : Nat) (rows : List Row) : Prop :=
  ∃ gap gap', gap.length ≤ 1 ∧ gap'.length ≤ 1 ∧ (∀ row ∈ gap ++ gap', row.IsBare .gap) ∧
    rows = gap ++ (if line ∈ p.relevantLines then p.blockRows config line else []) ++ gap'

/-- A placement with one more label on a line, which takes the index `k`. The margin and the slots are
the same, the same labels are open at every line, and any other line is drawn as it was. -/
structure Undisturbed (p q : Placement) (config : Config) (k line : Nat) : Prop where
  labels_eq : ∀ i, q.labels[(Renaming.past k).label i]? = p.labels[i]?
  mem_relevantLines : ∀ i, i ∈ q.relevantLines ↔ i = line ∨ i ∈ p.relevantLines
  marginWidth_eq : q.marginWidth = p.marginWidth
  slotOf_eq : ∀ i, q.slotOf ((Renaming.past k).label i) = p.slotOf i
  openBy_eq : ∀ i, q.openBy i = (p.openBy i).map (OpenLabel.rename (.past k))
  openOn_eq : ∀ i, q.openOn i = (p.openOn i).map (OpenLabel.rename (.past k))
  openPast_eq : ∀ i, q.openPast i = (p.openPast i).map (OpenLabel.rename (.past k))
  block_eq : ∀ i ∈ p.relevantLines, i ≠ line →
    p.block config i (p.openBy i) = ⟨p.openPast i, .ok (p.blockRows config i)⟩ ∧
      q.block config i (q.openBy i) = ⟨q.openPast i, .ok (q.blockRows config i)⟩ ∧
      q.blockRows config i = (p.blockRows config i).map (Row.rename (.past k))

variable {p q : Placement} {config : Config} {front back : List Placed} {extra : Placed}

theorem gapRows_length (p : Placement) (config : Config) (previous : Option Nat) (line : Nat) :
    (p.gapRows config previous line).length ≤ 1 := by
  rw [gapRows]
  split
  next => cases (p.gapRow (p.openBy line)).toOption <;> simp
  next => exact Nat.zero_le 1

/-- The rows of a snippet are those of the lines above a line, those of the lines below it and what
stands in between. -/
theorem content_around (haligned : p.Aligned) (config : Config) (line : Nat) :
    ∃ middle, p.IsMiddle config line middle ∧ (p.content config []).rows =
      .ok (p.rowsAbove config line ++ middle ++ p.rowsBelow config line) := by
  let above := p.relevantLines.filter (· < line)
  let own := if line ∈ p.relevantLines then [line] else []
  let below := p.relevantLines.filter (line < ·)
  have hsplit : p.relevantLines = above ++ own ++ below :=
    increasing_split p.relevantLines_increasing line
  let gap' := below.head?.elim [] (p.gapRows config ((above ++ own).getLast?.or none))
  have hgap' : gap'.length ≤ 1 ∧ ∀ row ∈ gap', row.IsBare .gap := by
    cases hhead : below.head? with
    | none => simp [gap', hhead]
    | some first =>
      simp only [gap', hhead, Option.elim_some]
      exact ⟨p.gapRows_length config _ _, p.gapRows_shown config _ _⟩
  refine ⟨p.stack config (above.getLast?.or none) own ++ gap', ?_, ?_⟩
  · by_cases hline : line ∈ p.relevantLines
    · refine ⟨p.gapRows config (above.getLast?.or none) line, gap', p.gapRows_length config _ _,
        hgap'.1, ?_, ?_⟩
      · intro row hrow
        rcases List.mem_append.mp hrow with hrow | hrow
        · exact p.gapRows_shown config _ _ row hrow
        · exact hgap'.2 row hrow
      · simp only [own, if_pos hline, stack, List.append_nil]
    · refine ⟨[], gap', Nat.zero_le 1, hgap'.1, hgap'.2, ?_⟩
      simp only [own, if_neg hline, stack, List.append_nil]
  · rw [content_eq_stack config haligned, hsplit, stack_append, stack_append,
      stack_eq_append _ below]
    simp only [gap', rowsAbove, rowsBelow, above, below, List.append_assoc]

section Added

variable (h : Adds front extra back p q) (hp : p.Aligned) (hq : q.Aligned)
include h

theorem Adds.filter_relevantLines {keep : Nat → Bool} (hkeep : keep extra.startLine = false) :
    q.relevantLines.filter keep = p.relevantLines.filter keep := by
  apply eq_of_increasing (f := id)
  · exact q.relevantLines_increasing.filter _
  · exact p.relevantLines_increasing.filter _
  · intro i
    simp only [List.mem_filter, h.mem_relevantLines]
    constructor
    · rintro ⟨rfl | hi, hk⟩
      · rw [hkeep] at hk
        cases hk
      · exact ⟨hi, hk⟩
    · rintro ⟨hi, hk⟩
      exact ⟨.inr hi, hk⟩

theorem Adds.gapRows_eq (previous : Option Nat) (line : Nat) :
    q.gapRows config previous line =
      (p.gapRows config previous line).map (Row.rename (.past front.length)) := by
  have hgap : q.gapRow (q.openBy line) = p.gapRow (p.openBy line) := by
    rw [← h.renames.gapRow_eq, ← h.renames.openBy_eq]
    rfl
  have hrows : q.gapRows config previous line = p.gapRows config previous line := by
    rw [gapRows, gapRows, hgap]
  have hself : ∀ row ∈ p.gapRows config previous line, row.rename (.past front.length) = row :=
    fun row hrow => Row.rename_of_line? _ (by rw [(p.gapRows_shown config _ _ row hrow).role_eq]; rfl)
  rw [hrows, List.map_congr_left hself, List.map_id']

include hp hq

/-- Any other line is drawn as it was, and leaves open what it left open. -/
theorem Adds.block_eq {i : Nat} (hi : i ∈ p.relevantLines) (hne : i ≠ extra.startLine) :
    p.block config i (p.openBy i) = ⟨p.openPast i, .ok (p.blockRows config i)⟩ ∧
      q.block config i (q.openBy i) = ⟨q.openPast i, .ok (q.blockRows config i)⟩ ∧
      q.blockRows config i = (p.blockRows config i).map (Row.rename (.past front.length)) := by
  have hi' : i ∈ q.relevantLines := h.mem_relevantLines.mpr (.inr hi)
  obtain ⟨b, hrows, hb⟩ := blockRows_of_alignedOn config (lt_length_of_mem_relevantLines hi)
    (aligned_iff.mp hp i hi)
  obtain ⟨b', hrows', hb'⟩ := blockRows_of_alignedOn config (lt_length_of_mem_relevantLines hi')
    (aligned_iff.mp hq i hi')
  refine ⟨hb, hb', ?_⟩
  rw [hrows, hrows', h.block_rows hne b b']

theorem Adds.stack_eq {keep : Nat → Bool} (hkeep : keep extra.startLine = false) :
    q.stack config none (q.relevantLines.filter keep) =
      (p.stack config none (p.relevantLines.filter keep)).map (Row.rename (.past front.length)) := by
  rw [h.filter_relevantLines hkeep]
  refine stack_map none (fun line _ previous => h.gapRows_eq previous line) fun line hline => ?_
  obtain ⟨hmem, hk⟩ := List.mem_filter.mp hline
  have hne : line ≠ extra.startLine := by
    rintro rfl
    rw [hkeep] at hk
    cases hk
  exact (h.block_eq hp hq hmem hne).2.2

theorem Adds.rowsAbove_eq : q.rowsAbove config extra.startLine =
    (p.rowsAbove config extra.startLine).map (Row.rename (.past front.length)) :=
  h.stack_eq hp hq (by simp)

theorem Adds.rowsBelow_eq : q.rowsBelow config extra.startLine =
    (p.rowsBelow config extra.startLine).map (Row.rename (.past front.length)) :=
  h.stack_eq hp hq (by simp)

theorem Adds.undisturbed (config : Config) :
    Undisturbed p q config front.length extra.startLine where
  labels_eq := h.getElem?
  mem_relevantLines _ := h.mem_relevantLines
  marginWidth_eq := h.marginWidth_eq
  slotOf_eq := h.relabels.slotOf_eq
  openBy_eq := h.relabels.openBy_eq
  openOn_eq := h.relabels.openOn_eq
  openPast_eq := h.relabels.openPast_eq
  block_eq _ hi hne := h.block_eq hp hq hi hne

end Added

theorem exists_ofLabels_nil (source : Source) :
    ∃ p, ofLabels source ([] ++ []) = .ok p ∧ p.labels = [] := by
  apply exists_ofLabels
  rw [List.append_nil, sortLabels, List.mergeSort_nil]
  rfl

/-- Labels are placed one by one, so one more label is placed between the others. -/
theorem exists_adds {source : Source} {before after : List Label} {extra : Label} {line : Nat}
    (hline : source.spanLines extra.span = .ok (line, line))
    (hp : ofLabels source (before ++ after) = .ok p)
    (hq : ofLabels source (before ++ extra :: after) = .ok q) :
    ∃ front back, Adds front ⟨extra, line, line⟩ back p q := by
  obtain ⟨left, right, hsort, hsort'⟩ := exists_sortLabels_insert before after extra
  have hplaced := mapM_place_of_ofLabels hp
  have hplaced' := mapM_place_of_ofLabels hq
  rw [hsort, List.mapM_append] at hplaced
  rw [hsort', List.mapM_append, List.mapM_cons] at hplaced'
  obtain ⟨front, hfront, hplaced⟩ := bind_eq_ok_iff.mp hplaced
  obtain ⟨back, hback, hplaced⟩ := bind_eq_ok_iff.mp hplaced
  obtain ⟨front', hfront', hplaced'⟩ := bind_eq_ok_iff.mp hplaced'
  obtain ⟨rest, hrest, hplaced'⟩ := bind_eq_ok_iff.mp hplaced'
  obtain ⟨extra', hextra, hrest⟩ := bind_eq_ok_iff.mp hrest
  obtain ⟨back', hback', hrest⟩ := bind_eq_ok_iff.mp hrest
  cases hfront.symm.trans hfront'
  cases hback.symm.trans hback'
  cases hrest
  have hsingle : place source extra = .ok ⟨extra, line, line⟩ := by
    rw [place, hline]
    rfl
  cases hsingle.symm.trans hextra
  refine ⟨front, back, ?_, (Except.ok.inj hplaced).symm, (Except.ok.inj hplaced').symm, rfl⟩
  rw [(ofLabels_eq_ok hp).1, (ofLabels_eq_ok hq).1]

/-- The first label of a diagnostic, on one line, makes that line the only one that is drawn. -/
theorem first_label {source : Source} {extra : Label} {line : Nat}
    (hline : source.spanLines extra.span = .ok (line, line))
    (hplaced : ofLabels source [extra] = .ok q) (hq : q.Aligned) (config : Config) :
    q.relevantLines = [line] ∧ q.marginWidth = 0 ∧
      (q.content config []).rows = .ok (q.blockRows config line) := by
  obtain ⟨p, hbare, hnone⟩ := exists_ofLabels_nil source
  obtain ⟨_, _, hadds⟩ := exists_adds hline hbare hplaced
  have hlines : q.relevantLines = [line] := by
    apply eq_of_increasing (f := id) q.relevantLines_increasing (List.pairwise_singleton _ _)
    intro i
    rw [hadds.mem_relevantLines, List.mem_singleton, mem_relevantLines_iff, hnone]
    simp
  refine ⟨hlines, ?_, ?_⟩
  · rw [hadds.marginWidth_eq, marginWidth, depth, multiline, hnone]
    rfl
  · rw [content_eq_stack config hq, hlines, stack, stack, gapRows_none, List.append_nil,
      List.nil_append]

end Placement

section Report

variable {catalog : Catalog} {d : Diagnostic} {source : Source} {front back : List Label}
  {extra : Label} {line : Nat} {text text' : String}

/-- A report from the rows of its lines. -/
def Diagnostic.report (d : Diagnostic) (gutter : Nat) (locus : Locus) (content : List Row) : String :=
  String.ofList (rowsText d.config.charSet d.config.colors gutter
    (Canvas.frame d (borderRow d.sourceId locus) content))

theorem report_of_render {p : Placement} (h : render catalog d = .ok text)
    (hcanvas : Canvas.ofDiagnostic catalog d = .ok ⟨d, some p⟩) :
    ∃ locus content, p.locus = .ok locus ∧ (p.content d.config []).rows = .ok content ∧
      text = d.report p.gutterWidth locus content := by
  obtain ⟨locus, chunks, hlocus, hcontent, hrows, _⟩ := exists_frame h hcanvas
  refine ⟨locus, chunks.flatten, hlocus, hcontent, ?_⟩
  rw [Except.ok.inj (h.symm.trans (render_of_rows_ok hcanvas hrows)), Canvas.text]
  rfl

theorem text_of_no_labels (hlabels : d.labels = []) (h : render catalog d = .ok text) :
    text = String.ofList (rowsText d.config.charSet d.config.colors 0
      (Canvas.header ⟨d, none⟩ :: Canvas.bareNotes ⟨d, none⟩)) := by
  have hcanvas : Canvas.ofDiagnostic catalog d = .ok ⟨d, none⟩ := by
    rw [Canvas.ofDiagnostic, hlabels]
    rfl
  have hrows : (⟨d, none⟩ : Canvas).rows =
    .ok (Canvas.header ⟨d, none⟩ :: Canvas.bareNotes ⟨d, none⟩) := rfl
  rw [Except.ok.inj (h.symm.trans (render_of_rows_ok hcanvas hrows)), Canvas.text]
  rfl

theorem report_rename_past (k gutter : Nat) (locus : Locus) (above middle below : List Row) :
    d.report gutter locus (above.map (Row.rename (.past k)) ++ middle ++
      below.map (Row.rename (.past k))) = d.report gutter locus (above ++ middle ++ below) := by
  have happend : ∀ rows more, rowsText d.config.charSet d.config.colors gutter (rows ++ more) =
      rowsText d.config.charSet d.config.colors gutter rows ++
        rowsText d.config.charSet d.config.colors gutter more := fun _ _ => List.flatMap_append
  simp only [Diagnostic.report, Canvas.frame, happend, rowsText_rename_past]

/-- One more label on a line of a diagnostic that has labels. The two reports are the same but for the
width of the gutter, the place that the border names, and what stands between the lines above that line
and those below it: its block and the gap rows next to it. A diagnostic without labels has no frame. With
its first label it is drawn in one, with the block of the line of that label and its notes inside. -/
theorem render_with_added_label (hlabels : d.labels = front ++ back)
    (hsource : catalog.find? d.sourceId = some source)
    (hline : source.spanLines extra.span = .ok (line, line)) (h : render catalog d = .ok text)
    (h' : render catalog (d.withLabels (front ++ extra :: back)) = .ok text') :
    (d.labels ≠ [] → ∃ p q k locus locus' middle middle',
      Canvas.ofDiagnostic catalog d = .ok ⟨d, some p⟩ ∧
      Canvas.ofDiagnostic catalog (d.withLabels (front ++ extra :: back)) =
        .ok ⟨d.withLabels (front ++ extra :: back), some q⟩ ∧
      p.Undisturbed q d.config k line ∧ p.IsMiddle d.config line middle ∧
      q.IsMiddle d.config line middle' ∧ p.locus = .ok locus ∧ q.locus = .ok locus' ∧
      text = d.report p.gutterWidth locus
        (p.rowsAbove d.config line ++ middle ++ p.rowsBelow d.config line) ∧
      text' = d.report q.gutterWidth locus'
        (p.rowsAbove d.config line ++ middle' ++ p.rowsBelow d.config line)) ∧
    (d.labels = [] → ∃ q locus,
      Canvas.ofDiagnostic catalog (d.withLabels [extra]) = .ok ⟨d.withLabels [extra], some q⟩ ∧
      q.relevantLines = [line] ∧ q.marginWidth = 0 ∧ q.locus = .ok locus ∧
      text = String.ofList (rowsText d.config.charSet d.config.colors 0
        (Canvas.header ⟨d, none⟩ :: Canvas.bareNotes ⟨d, none⟩)) ∧
      text' = d.report q.gutterWidth locus (q.blockRows d.config line)) := by
  have hne' : (d.withLabels (front ++ extra :: back)).labels ≠ [] := by simp [Diagnostic.withLabels]
  obtain ⟨q, hcanvas'⟩ := exists_canvas_of_render h' hne'
  obtain ⟨_, hq, _⟩ := placement_of_render h' hcanvas'
  obtain ⟨locus', content', hlocus', hcontent', htext'⟩ := report_of_render h' hcanvas'
  obtain ⟨_, _, hsource', hplaced', heq'⟩ := (Canvas.ofDiagnostic_eq_ok hne').mp hcanvas'
  cases hsource.symm.trans hsource'
  cases heq'
  constructor
  · intro hne
    obtain ⟨p, hcanvas⟩ := exists_canvas_of_render h hne
    obtain ⟨_, hp, _⟩ := placement_of_render h hcanvas
    obtain ⟨locus, content, hlocus, hcontent, htext⟩ := report_of_render h hcanvas
    obtain ⟨_, _, hsource', hplaced, heq⟩ := (Canvas.ofDiagnostic_eq_ok hne).mp hcanvas
    cases hsource.symm.trans hsource'
    cases heq
    rw [hlabels] at hplaced
    obtain ⟨before, after, hadds⟩ := Placement.exists_adds hline hplaced hplaced'
    obtain ⟨middle, hmiddle, haround⟩ := Placement.content_around hp d.config line
    obtain ⟨middle', hmiddle', haround'⟩ := Placement.content_around hq d.config line
    cases hcontent.symm.trans haround
    cases hcontent'.symm.trans haround'
    refine ⟨p, q, before.length, locus, locus', middle, middle', hcanvas, hcanvas',
      hadds.undisturbed hp hq d.config, hmiddle, hmiddle', hlocus, hlocus', htext, ?_⟩
    rw [htext', hadds.rowsAbove_eq hp hq, hadds.rowsBelow_eq hp hq]
    exact report_rename_past _ _ _ _ _ _
  · intro hnil
    obtain ⟨rfl, rfl⟩ := List.append_eq_nil_iff.mp (hlabels.symm.trans hnil)
    obtain ⟨hlines, hwidth, hblock⟩ := Placement.first_label hline hplaced' hq d.config
    cases hcontent'.symm.trans hblock
    exact ⟨q, locus', hcanvas', hlines, hwidth, hlocus', text_of_no_labels hnil h, htext'⟩

/-- A label on the second line, in which two labels cross. -/
def secondLetter : Label :=
  ⟨⟨3, 4, by omega⟩, "letter", .default⟩

theorem crossing_with_added_label :
    letters.spanLines secondLetter.span = .ok (1, 1) ∧
    ∃ text text' locus locus' middle middle', ∃ p q : Placement, ∃ k,
      render ⟨[(.name "letters", letters)]⟩ crossing = .ok text ∧
      render ⟨[(.name "letters", letters)]⟩
        (crossing.withLabels (crossing.labels ++ [secondLetter])) = .ok text' ∧
      p.Undisturbed q crossing.config k 1 ∧ p.IsMiddle crossing.config 1 middle ∧
      q.IsMiddle crossing.config 1 middle' ∧
      text = crossing.report p.gutterWidth locus
        (p.rowsAbove crossing.config 1 ++ middle ++ p.rowsBelow crossing.config 1) ∧
      text' = crossing.report q.gutterWidth locus'
        (p.rowsAbove crossing.config 1 ++ middle' ++ p.rowsBelow crossing.config 1) := by
  let added := crossing.withLabels (crossing.labels ++ [secondLetter])
  have hsource : Catalog.find? ⟨[(.name "letters", letters)]⟩ crossing.sourceId = some letters := rfl
  have hsource' : Catalog.find? ⟨[(.name "letters", letters)]⟩ added.sourceId = some letters := rfl
  have hfit : added.FitsIn letters := by decide
  have hline : letters.spanLines secondLetter.span = .ok (1, 1) := by decide
  obtain ⟨text, _, htext, _⟩ := crossing_rendered
  obtain ⟨text', _, htext', _⟩ := exists_render_of_fitsIn (by decide) hsource' hfit
  obtain ⟨p, q, k, locus, locus', middle, middle', _, _, hkeeps, hmiddle, hmiddle', _, _, hreport,
    hreport'⟩ := (render_with_added_label (List.append_nil _).symm hsource hline htext htext').1
      (by decide)
  exact ⟨hline, text, text', locus, locus', middle, middle', p, q, k, htext, htext', hkeeps, hmiddle,
    hmiddle', hreport, hreport'⟩

/-- No labels, and a note. -/
def bareNote : Diagnostic where
  sourceId := .name "main.rz"
  severity := .error
  message := "oops"
  labels := []
  notes := [⟨"note", "n", .default⟩]
  config := { colors := false }

/-- With its first label a diagnostic is drawn in a frame, and its note as well: what stands behind the
gutter changes on a row that is neither of the line of the label nor next to it. -/
theorem bareNote_framed :
    let catalog : Catalog := ⟨[(.name "main.rz", Source.ofText ['a', 'b'])]⟩
    let label : Label := ⟨⟨0, 1, Nat.zero_le 1⟩, "m", .default⟩
    let behindGutter (d : Diagnostic) : Except Error (List String) :=
      (Canvas.ofDiagnostic catalog d).bind fun c => c.rows.map fun rows =>
        rows.map fun row => String.ofList (row.bodyShown .rounded)
    (Source.ofText ['a', 'b']).spanLines label.span = .ok (0, 0) ∧
    (render catalog bareNote).map (fun text => (lineParts text.toList).map String.ofList) =
      .ok ["error: oops", "  = note: n", ""] ∧
    (render catalog (bareNote.withLabels [label])).map
        (fun text => (lineParts text.toList).map String.ofList) =
      .ok ["error: oops", "   ╭─[main.rz:1:0]", " 1 │ ab", "   │ ┬", "   │ ╰── m", "   │",
        "   │ note: n", "───╯", ""] ∧
    behindGutter bareNote = .ok ["error: oops", "  = note: n"] ∧
    behindGutter (bareNote.withLabels [label]) =
      .ok ["error: oops", "╭─[main.rz:1:0]", "│ ab", "│ ┬", "│ ╰── m", "│", "│ note: n", "╯"] := by
  refine ⟨?_, ?_, ?_, ?_, ?_⟩ <;> decide +kernel

end Report

end Callout

import Callout.Proofs.LineTiling
import Callout.Proofs.MessageRows
import Callout.Proofs.PlainText
import Callout.Proofs.ShiftedReport

namespace Callout

/-- Lines that are ended before a text are lines of their own, as many as there are separators. -/
theorem lineTexts_behind {separator : Char} (hseparator : isSeparator separator = true)
    (before rest : List Char) :
    ∃ ended, lineTexts (before ++ [separator] ++ rest) = ended ++ lineTexts rest ∧
      ended.length = (before ++ [separator]).countP isSeparator ∧
      ended.flatten = before ++ [separator] := by
  induction before with
  | nil => exact ⟨[[separator]], by simp [lineTexts, hseparator], by simp [hseparator], rfl⟩
  | cons c before ih =>
    obtain ⟨ended, htexts, hlength, hflatten⟩ := ih
    rw [List.cons_append, List.cons_append, List.countP_cons]
    cases hc : isSeparator c with
    | true =>
      refine ⟨[c] :: ended, by simp only [lineTexts, hc, if_true, htexts, List.cons_append], ?_, ?_⟩
      · rw [List.length_cons, hlength, if_pos rfl]
      · rw [List.flatten_cons, hflatten]
        rfl
    | false =>
      cases ended with
      | nil => cases before <;> cases hflatten
      | cons first ended =>
        refine ⟨(c :: first) :: ended, lineTexts_cons_of_not_separator hc htexts, ?_, ?_⟩
        · rw [List.length_cons, ← List.length_cons (a := first), hlength, if_neg (by simp),
            Nat.add_zero]
        · rw [List.flatten_cons, List.cons_append, ← List.flatten_cons, hflatten]

namespace Source

variable {s t : Source} {before : List Char} {separator : Char}

theorem isShift_of_prefix (hseparator : isSeparator separator = true)
    (htext : t.text = before ++ [separator] ++ s.text) :
    s.IsShift (byteWidth (before ++ [separator])) ((before ++ [separator]).countP isSeparator) t ∧
      ∀ i < s.lines.length, t.lineSlice (i + (before ++ [separator]).countP isSeparator : Nat) =
        s.lineSlice i := by
  obtain ⟨ended, htexts, hlength, hflatten⟩ := lineTexts_behind hseparator before s.text
  rw [← htext] at htexts
  rw [← hlength, ← hflatten]
  have hget : ∀ i, (lineTexts t.text)[i + ended.length]? = (lineTexts s.text)[i]? := by
    intro i
    rw [htexts, List.getElem?_append_right (by omega), Nat.add_sub_cancel]
  refine ⟨⟨?_, ?_⟩, ?_⟩
  · rw [lines_length, lines_length, htexts, List.length_append, Nat.add_comm]
  · intro i line hline
    rw [getElem?_lines] at hline
    obtain ⟨text, hi, rfl⟩ := Option.map_eq_some_iff.mp hline
    have hline' := t.getElem?_lines (i + ended.length)
    rw [hget, hi, Option.map_some] at hline'
    refine ⟨_, hline', ?_, rfl⟩
    simp only [htexts, Nat.add_comm i, List.take_length_add_append, List.flatten_append,
      byteWidth_append, Nat.add_comm (byteWidth ended.flatten)]
  · intro i hi
    obtain ⟨text, htext, hslice⟩ := exists_lineText hi
    rw [hslice]
    exact lineSlice_eq_of_lineTexts ((hget i).trans htext)

end Source

theorem Role.number?_shift (k : Nat) (role : Role) :
    (role.shift k).number? = role.number?.map (· + k) := by
  cases role with
  | code line => exact congrArg some (Nat.add_right_comm line k 1)
  | _ => rfl

theorem Row.bodyShown_shift (chars : CharSet) (k : Nat) (row : Row) :
    (row.shift k).bodyShown chars = row.bodyShown chars := by
  obtain ⟨role, body⟩ := row
  cases role <;> rfl

/-- A row of a report against the same row of the report further down. The border names a line further
down and the same column; any other row has its number moved along, if it has one, and is the same
behind the gutter. -/
inductive Row.Follows (chars : CharSet) (id : SourceId) (k : Nat) : Row → Row → Prop where
  | border (locus : Locus) :
    Follows chars id k (borderRow id locus) (borderRow id ⟨locus.line + k, locus.column⟩)
  | inner {row row' : Row} (inside : row.role ≠ .border) (role_eq : row'.role = row.role.shift k)
    (number_eq : row'.role.number? = row.role.number?.map (· + k))
    (body_eq : row'.bodyShown chars = row.bodyShown chars) : Follows chars id k row row'

section Follows

variable {chars : CharSet} {id : SourceId} {k : Nat}

theorem Row.follows_shift {row : Row} (h : row.role ≠ .border) :
    Row.Follows chars id k row (row.shift k) :=
  .inner h rfl (Role.number?_shift k row.role) (Row.bodyShown_shift chars k row)

theorem Row.follows_self {row : Row} (hline : row.role.line? = none) (h : row.role ≠ .border) :
    Row.Follows chars id k row row := by
  have hfollows : Row.Follows chars id k row (row.shift k) := Row.follows_shift h
  rwa [Row.shift_of_line? k hline] at hfollows

theorem Placement.content_inside {p : Placement} {config : Config} {content : List Row}
    (h : (p.content config []).rows = .ok content) {row : Row} (hrow : row ∈ content) :
    row.role ≠ .border := by
  have haligned : ∀ line ∈ p.relevantLines, p.AlignedOn line := by
    by_contra hnot
    obtain ⟨span, hspan⟩ := blocks_of_not_alignedOn config none (List.nil_append _).symm hnot
    rw [reached_relevantLines] at hspan
    cases hspan.symm.trans h
  obtain ⟨chunks, hchunks, hall⟩ := blocks_of_alignedOn config none
    (show p.relevantLines = [] ++ p.relevantLines ++ [] by simp) haligned
  rw [List.append_nil, reached_relevantLines] at hchunks
  have hrows : (p.content config []).rows = .ok chunks.flatten := congrArg Drawn.rows hchunks
  cases hrows.symm.trans h
  obtain ⟨chunk, hchunk, hrow⟩ := List.mem_flatten.mp hrow
  obtain ⟨line, hline, hchunk⟩ := forall₂_mem_right hall hchunk
  intro hborder
  rcases hchunk.mem_cases hrow with hgap | ⟨b, hb⟩
  · cases hborder.symm.trans hgap.role_eq
  · obtain ⟨messages, closings, hblock⟩ :=
      b.isBlock (lt_length_of_mem_relevantLines hline) (haligned line hline)
    have hrole := hblock.line?_eq hb
    rw [hborder] at hrole
    cases hrole

theorem Canvas.frame_follows (d : Diagnostic) (locus : Locus) {content : List Row}
    (h : ∀ row ∈ content, row.role ≠ .border) :
    List.Forall₂ (Row.Follows chars d.sourceId k)
      (Canvas.frame d (borderRow d.sourceId locus) content)
      (Canvas.frame d (borderRow d.sourceId (locus.shift k)) (content.map (Row.shift k))) := by
  have hself : ∀ rows : List Row, (∀ row ∈ rows, row.role.line? = none ∧ row.role ≠ .border) →
      List.Forall₂ (Row.Follows chars d.sourceId k) rows rows :=
    fun rows hrows => List.forall₂_same.mpr fun row hrow =>
      Row.follows_self (hrows row hrow).1 (hrows row hrow).2
  have hcontent : List.Forall₂ (Row.Follows chars d.sourceId k) content
      (content.map (Row.shift k)) :=
    List.forall₂_map_right_iff.mpr (List.forall₂_same.mpr fun row hrow => Row.follows_shift (h row hrow))
  have hnotes : ∀ row ∈ Canvas.notes ⟨d, none⟩, row.role.line? = none ∧ row.role ≠ .border := by
    intro row hrow
    obtain ⟨⟨note, i⟩, _, hrow⟩ := List.mem_flatMap.mp hrow
    rw [noteRows_role hrow]
    exact ⟨rfl, by simp⟩
  refine List.rel_append (List.rel_append (List.rel_append (List.rel_append
    (.cons ?_ (.cons (.border locus) .nil)) hcontent) ?_) (hself _ hnotes)) ?_
  · exact Row.follows_self rfl (by simp [Canvas.header])
  · exact hself _ (by simp [Canvas.emptyRow, Role.line?])
  · exact hself _ (by simp [Canvas.footer, Role.line?])

theorem Canvas.bare_follows (d : Diagnostic) : List.Forall₂ (Row.Follows chars d.sourceId k)
    (Canvas.header ⟨d, none⟩ :: Canvas.bareNotes ⟨d, none⟩)
    (Canvas.header ⟨d, none⟩ :: Canvas.bareNotes ⟨d, none⟩) := by
  refine List.forall₂_same.mpr fun row hrow => ?_
  rcases List.mem_cons.mp hrow with rfl | hrow
  · exact Row.follows_self rfl (by simp [Canvas.header])
  · obtain ⟨⟨note, i⟩, _, hrow⟩ := List.mem_flatMap.mp hrow
    have hrole := noteRows_role hrow
    exact Row.follows_self (by rw [hrole]; rfl) (by rw [hrole]; simp)

end Follows

/-- What a report reads when colors are off: for each row its gutter, the rest of it and a line feed. -/
def Canvas.plainText (c : Canvas) (rows : List Row) : List Char :=
  rows.flatMap fun row => row.gutterShown c.diagnostic.config.charSet c.gutter ++
    row.bodyShown c.diagnostic.config.charSet ++ ['\n']

theorem Canvas.text_plain (c : Canvas) (rows : List Row) (h : c.diagnostic.config.colors = false) :
    c.text rows = c.plainText rows := by
  rw [Canvas.text, rowsText, h, Canvas.plainText]
  congr 1
  funext row
  exact row.text_plain _ _

variable {catalog catalog' : Catalog} {d : Diagnostic} {s t : Source} {before : List Char}
  {separator : Char}

/-- A source behind a text that is ended by a separator, with the labels moved along by the bytes of
that text, is drawn whenever the source itself is. Row by row the two reports are the same behind
their gutters, apart from line numbers and the line in the border, which are greater by the number of
separators in the text. -/
theorem render_behind_prefix (hs : catalog.find? d.sourceId = some s)
    (ht : catalog'.find? d.sourceId = some t) (hseparator : isSeparator separator = true)
    (htext : t.text = before ++ [separator] ++ s.text) :
    let moved := d.shift (byteWidth (before ++ [separator]))
    let k := (before ++ [separator]).countP isSeparator
    ((∃ text, render catalog d = .ok text) ↔ ∃ text, render catalog' moved = .ok text) ∧
    ∀ text text', render catalog d = .ok text → render catalog' moved = .ok text' →
      ∃ c c' rows rows', Canvas.ofDiagnostic catalog d = .ok c ∧
        Canvas.ofDiagnostic catalog' moved = .ok c' ∧ c.rows = .ok rows ∧ c'.rows = .ok rows' ∧
        text = String.ofList (c.text rows) ∧ text' = String.ofList (c'.text rows') ∧
        List.Forall₂ (Row.Follows d.config.charSet d.sourceId k) rows rows' ∧
        (d.config.colors = false →
          c.text rows = c.plainText rows ∧ c'.text rows' = c'.plainText rows') := by
  intro moved k
  have hreport : (∃ c c' rows rows', Canvas.ofDiagnostic catalog d = .ok c ∧
      Canvas.ofDiagnostic catalog' moved = .ok c' ∧ c.rows = .ok rows ∧ c'.rows = .ok rows' ∧
      c.diagnostic = d ∧ c'.diagnostic = moved ∧
      List.Forall₂ (Row.Follows d.config.charSet d.sourceId k) rows rows') ∨
      ∃ e e', render catalog d = .error e ∧ render catalog' moved = .error e' := by
    by_cases hlabels : d.labels = []
    · left
      have hmoved : moved.labels = [] := by simp [moved, Diagnostic.shift, hlabels]
      exact ⟨⟨d, none⟩, ⟨moved, none⟩, _, _, by rw [Canvas.ofDiagnostic, hlabels]; rfl,
        by rw [Canvas.ofDiagnostic, hmoved]; rfl, rfl, rfl, rfl, rfl, Canvas.bare_follows d⟩
    · obtain ⟨hshift, hslices⟩ := Source.isShift_of_prefix hseparator htext
      have hagree : ∀ label ∈ d.labels, ∀ first last : Nat,
          s.spanLines label.span = .ok (first, last) →
          t.lineSlice (first + k : Nat) = s.lineSlice first ∧
            t.lineSlice (last + k : Nat) = s.lineSlice last := by
        intro label _ first last hlines
        obtain ⟨_, hfirst, hlast⟩ := Source.spanLines_eq_ok_iff.mp hlines
        exact ⟨hslices first hfirst.lt_length, hslices last hlast.lt_length⟩
      rcases report_shift hlabels hs ht hshift hagree with
        ⟨p, q, locus, content, hp, hq, _, hcontent, hrows, hrows'⟩ | ⟨e, he, he'⟩
      · exact .inl ⟨_, _, _, _, hp, hq, hrows, hrows', rfl, rfl,
          Canvas.frame_follows d locus fun row hrow => Placement.content_inside hcontent hrow⟩
      · exact .inr ⟨e, _, he, he'⟩
  rcases hreport with ⟨c, c', rows, rows', hc, hc', hrows, hrows', hd, hd', hfollows⟩ |
    ⟨e, e', he, he'⟩
  · have hok := render_of_rows_ok hc hrows
    have hok' := render_of_rows_ok hc' hrows'
    refine ⟨⟨fun _ => ⟨_, hok'⟩, fun _ => ⟨_, hok⟩⟩, ?_⟩
    intro text text' htext htext'
    cases hok.symm.trans htext
    cases hok'.symm.trans htext'
    refine ⟨c, c', rows, rows', hc, hc', hrows, hrows', rfl, rfl, hfollows, fun hcolors => ⟨?_, ?_⟩⟩
    · exact c.text_plain rows (by rw [hd]; exact hcolors)
    · exact c'.text_plain rows' (by rw [hd']; exact hcolors)
  · refine ⟨by simp [he, he'], ?_⟩
    intro text text' htext _
    cases he.symm.trans htext

/-- Two lines, ended by a line separator and a vertical tab, and the three lines of two letters. -/
def lettersBehind : Source :=
  Source.ofText (['é', '\u2028'] ++ ['\x0b'] ++ letters.text)

theorem crossing_behind_prefix : ∃ text' p rows c' rows',
    render ⟨[(.name "letters", lettersBehind)]⟩ (crossing.shift 6) = .ok text' ∧
      Canvas.ofDiagnostic ⟨[(.name "letters", letters)]⟩ crossing = .ok ⟨crossing, some p⟩ ∧
      (⟨crossing, some p⟩ : Canvas).rows = .ok rows ∧
      Canvas.ofDiagnostic ⟨[(.name "letters", lettersBehind)]⟩ (crossing.shift 6) = .ok c' ∧
      c'.rows = .ok rows' ∧
      List.Forall₂ (Row.Follows crossing.config.charSet crossing.sourceId 2) rows rows' := by
  have hs : Catalog.find? ⟨[(.name "letters", letters)]⟩ crossing.sourceId = some letters := rfl
  have ht : Catalog.find? ⟨[(.name "letters", lettersBehind)]⟩ crossing.sourceId =
    some lettersBehind := rfl
  have hseparator : isSeparator '\x0b' = true := by decide
  have hbehind : lettersBehind.text = ['é', '\u2028'] ++ ['\x0b'] ++ letters.text := rfl
  have hwidth : byteWidth (['é', '\u2028'] ++ ['\x0b']) = 6 := by decide
  have hlines : (['é', '\u2028'] ++ ['\x0b']).countP isSeparator = 2 := by decide
  obtain ⟨text, p, htext, hcanvas⟩ := crossing_rendered
  obtain ⟨hiff, hboth⟩ := render_behind_prefix hs ht hseparator hbehind
  rw [hwidth] at hiff hboth
  obtain ⟨text', htext'⟩ := hiff.mp ⟨text, htext⟩
  obtain ⟨c, c', rows, rows', hc, hc', hrows, hrows', _, _, hfollows, _⟩ :=
    hboth text text' htext htext'
  cases hcanvas.symm.trans hc
  rw [hlines] at hfollows
  exact ⟨text', p, rows, c', rows', htext', hcanvas, hrows, hc', hrows', hfollows⟩

end Callout

import Callout.Proofs.InnermostLabel

namespace Callout

/-- Whether a span lies in another one. -/
def Span.LiesIn (inner outer : Span) : Prop :=
  outer.start ≤ inner.start ∧ inner.stop ≤ outer.stop

/-- Whether a line shows the same part of two spans one inside the other: they start on it together and run
to its end or past it, or they end on it together and come from its start or from above it. -/
def Line.CutsAlike (line : Line) (outer inner : Span) : Prop :=
  outer.start = inner.start ∧ line.byteOffset ≤ inner.start ∧ line.byteEnd ≤ inner.stop ∨
    outer.stop = inner.stop ∧ inner.start ≤ line.byteOffset ∧ inner.stop ≤ line.byteEnd

theorem Span.eq_of_bounds {s t : Span} (hstart : s.start = t.start) (hstop : s.stop = t.stop) : s = t := by
  cases s
  cases t
  cases hstart
  cases hstop
  rfl

theorem eq_or_le_of_max_eq {low a b : Nat} (hab : a ≤ b) (h : max low a = max low b) :
    a = b ∨ b ≤ low := by
  omega

theorem eq_or_le_of_min_eq {high a b : Nat} (hab : b ≤ a) (h : min high a = min high b) :
    a = b ∨ high ≤ b := by
  omega

theorem Source.OnLine.lt_byteOffset {s : Source} {position i j : Nat} {later : Line}
    (h : s.OnLine position i) (hlater : s.lines[j]? = some later) (hlt : i < j) :
    position < later.byteOffset := by
  obtain ⟨line, hline, _, hhigh⟩ := h
  have hend := lines_byteEnd_le hline hlater hlt
  have hj := (List.getElem?_eq_some_iff.mp hlater).1
  omega

namespace Placement

variable {p : Placement} {l m : Placed} {i : Nat} {line : Line} {mark : Span}

/-- A label that starts on a line or above it starts on it exactly when it does not start before it. -/
theorem startLine_eq_iff (h : l ∈ p.labels) (hline : p.source.lines[i]? = some line)
    (hle : l.startLine ≤ i) : l.startLine = i ↔ line.byteOffset ≤ l.label.span.start := by
  constructor
  · rintro rfl
    exact (bounds_of_startLine h hline).1
  · intro hoffset
    by_contra hne
    have := (start_onLine h).lt_byteOffset hline (by omega)
    omega

theorem endLine_eq_iff (h : l ∈ p.labels) (hline : p.source.lines[i]? = some line)
    (hle : i ≤ l.endLine) (hnonempty : l.label.span.start < l.label.span.stop) :
    l.endLine = i ↔ l.label.span.stop ≤ line.byteEnd := by
  constructor
  · rintro rfl
    exact stop_le_byteEnd h hline
  · intro hend
    by_contra hne
    obtain ⟨later, hlater⟩ := Source.exists_line (endLine_lt_length h)
    have hbelow := Source.lines_byteEnd_le hline hlater (by omega)
    have hoffset := (last_onLine h).byteOffset_le hlater
    omega

/-- The mark of a label on a line is what the line and the label have in common. -/
theorem markOf_bounds (h : l ∈ p.labels) (hline : p.source.lines[i]? = some line)
    (hmark : p.markOf i l = some mark) :
    line.byteOffset + mark.start = max line.byteOffset l.label.span.start ∧
      line.byteOffset + mark.stop = min line.byteEnd l.label.span.stop :=
  Source.localSpan_bounds (p.lines_eq l h) hline (by rw [localSpan_eq_markOf h, hmark])

/-- On a line on which a label is marked, another label around it has the same mark exactly when the line
cuts the two off alike. -/
theorem markOf_outer_iff (hl : l ∈ p.labels) (hm : m ∈ p.labels)
    (hline : p.source.lines[i]? = some line) (hin : m.label.span.LiesIn l.label.span)
    (hne : m.label.span ≠ l.label.span) (hnonempty : m.label.span.start < m.label.span.stop)
    (hmark : p.markOf i m = some mark) :
    p.markOf i l = some mark ↔ line.CutsAlike l.label.span m.label.span := by
  obtain ⟨hstart, hstop⟩ := hin
  have hi := (markOf_isSome_iff hm).mp (by rw [hmark]; rfl)
  have hlines := startLine_le_endLine hm
  have hfirst : l.startLine ≤ m.startLine := (start_onLine hl).le_of_le (start_onLine hm) hstart
  have hlast : m.endLine ≤ l.endLine := (last_onLine hm).le_of_le (last_onLine hl) (by omega)
  have hstarts := startLine_eq_iff hl hline (by omega)
  have hends := endLine_eq_iff hl hline (by omega) (by omega)
  obtain ⟨hmarkStart, hmarkStop⟩ := markOf_bounds hm hline hmark
  constructor
  · intro houter
    have hi' := (markOf_isSome_iff hl).mp (by rw [houter]; rfl)
    obtain ⟨houterStart, houterStop⟩ := markOf_bounds hl hline houter
    have hstartCut := eq_or_le_of_max_eq hstart (houterStart.symm.trans hmarkStart)
    have hstopCut := eq_or_le_of_min_eq hstop (houterStop.symm.trans hmarkStop)
    by_cases hsame : l.label.span.start = m.label.span.start
    · have hpast : line.byteEnd ≤ m.label.span.stop :=
        hstopCut.resolve_left fun heq => hne (Span.eq_of_bounds hsame.symm heq.symm)
      have hstop' : l.label.span.stop ≠ m.label.span.stop :=
        fun heq => hne (Span.eq_of_bounds hsame.symm heq.symm)
      have hon : l.startLine = i := by
        rcases hi' with hfirst' | hlast'
        · exact hfirst'.symm
        · have := hends.mp hlast'.symm
          omega
      exact .inl ⟨hsame, hsame ▸ hstarts.mp hon, hpast⟩
    · have habove : m.label.span.start ≤ line.byteOffset := hstartCut.resolve_left hsame
      have hon : l.endLine = i := by
        rcases hi' with hfirst' | hlast'
        · have := hstarts.mp hfirst'.symm
          omega
        · exact hlast'.symm
      have hend := hends.mp hon
      rcases hstopCut with heq | hpast
      · exact .inr ⟨heq, habove, heq ▸ hend⟩
      · exact .inr ⟨by omega, habove, by omega⟩
  · intro hcuts
    have hi' : i = l.startLine ∨ i = l.endLine := by
      rcases hcuts with ⟨heq, hoffset, _⟩ | ⟨heq, _, hend⟩
      · exact .inl (hstarts.mpr (heq ▸ hoffset)).symm
      · exact .inr (hends.mpr (heq ▸ hend)).symm
    obtain ⟨part, hpart, _⟩ := markOf_on_line hl hline hi'
    obtain ⟨hpartStart, hpartStop⟩ := markOf_bounds hl hline hpart
    have hsameStart : part.start = mark.start := by
      rcases hcuts with ⟨heq, _, _⟩ | ⟨_, habove, _⟩
      · rw [heq] at hpartStart
        omega
      · rw [Nat.max_eq_left (Nat.le_trans hstart habove)] at hpartStart
        rw [Nat.max_eq_left habove] at hmarkStart
        omega
    have hsameStop : part.stop = mark.stop := by
      rcases hcuts with ⟨_, _, hpast⟩ | ⟨heq, _, _⟩
      · rw [Nat.min_eq_left (Nat.le_trans hpast hstop)] at hpartStop
        rw [Nat.min_eq_left hpast] at hmarkStop
        omega
      · rw [heq] at hpartStop
        omega
    rw [hpart, Span.eq_of_bounds hsameStart hsameStop]

/-- Marks on a line lie in one another as their labels do. -/
theorem liesIn_of_markOf {part : Span} (hl : l ∈ p.labels) (hm : m ∈ p.labels)
    (hline : p.source.lines[i]? = some line) (hin : m.label.span.LiesIn l.label.span)
    (hmark : p.markOf i m = some mark) (hpart : p.markOf i l = some part) : mark.LiesIn part := by
  obtain ⟨hstart, hstop⟩ := hin
  obtain ⟨hmarkStart, hmarkStop⟩ := markOf_bounds hm hline hmark
  obtain ⟨hpartStart, hpartStop⟩ := markOf_bounds hl hline hpart
  unfold Span.LiesIn
  omega

end Placement

theorem Span.covers_iff_liesIn {mark part : Span} :
    mark.covers part.start part.stop = true ↔ part.LiesIn mark := by
  simp only [covers, LiesIn, Bool.and_eq_true, decide_eq_true_eq]

theorem sortLabels_index_lt {labels : List Label} {a b : Nat} {outer inner : Label}
    (houter : (sortLabels labels)[a]? = some outer) (hinner : (sortLabels labels)[b]? = some inner)
    (hlt : outer.span.start < inner.span.start) : a < b := by
  by_contra hle
  obtain ⟨ha, rfl⟩ := List.getElem?_eq_some_iff.mp houter
  obtain ⟨hb, rfl⟩ := List.getElem?_eq_some_iff.mp hinner
  rcases Nat.lt_or_eq_of_le (Nat.not_lt.mp hle) with hba | rfl
  · have := List.pairwise_iff_getElem.mp (sortLabels_sorted labels) b a hb ha hba
    omega
  · omega

theorem Placement.ofLabels_of_place {source : Source} {labels : List Label} {placed : List Placed}
    (h : (sortLabels labels).mapM (place source) = .ok placed) :
    ∃ p, ofLabels source labels = .ok p ∧ p.source = source ∧ p.labels = placed := by
  unfold ofLabels
  split
  next e he => cases he.symm.trans h
  next found hfound =>
    cases hfound.symm.trans h
    exact ⟨_, rfl, rfl, rfl⟩

section Nested

variable {source : Source} {labels : List Label} {p : Placement} {index : Int} {line : Line}
  {a b : Nat} {outer inner : Label} {mark : Span}

/-- A label around another one has the same mark exactly where the line cuts the two off alike, and
elsewhere a longer one. -/
theorem outer_mark_cases (hp : Placement.ofLabels source labels = .ok p)
    (hfound : source.line index = .ok line) (houter : (sortLabels labels)[a]? = some outer)
    (hinner : (sortLabels labels)[b]? = some inner) (hin : inner.span.LiesIn outer.span)
    (hne : inner.span ≠ outer.span) (hnonempty : inner.span.start < inner.span.stop)
    (hmark : source.localSpan index inner.span = .ok (some mark)) :
    (source.localSpan index outer.span = .ok (some mark) ↔ line.CutsAlike outer.span inner.span) ∧
      ∀ part, source.localSpan index outer.span = .ok (some part) → mark.LiesIn part := by
  obtain ⟨rfl, hlabels⟩ := Placement.ofLabels_eq_ok hp
  obtain ⟨i, rfl, hline⟩ := Source.exists_line_of_ok hfound
  rw [← hlabels, List.getElem?_map] at houter hinner
  obtain ⟨l, hl, rfl⟩ := Option.map_eq_some_iff.mp houter
  obtain ⟨m, hm, rfl⟩ := Option.map_eq_some_iff.mp hinner
  have hl := List.mem_of_getElem? hl
  have hm := List.mem_of_getElem? hm
  simp only [Placement.localSpan_eq_markOf hl, Placement.localSpan_eq_markOf hm, Except.ok.injEq]
    at hmark ⊢
  exact ⟨Placement.markOf_outer_iff hl hm hline hin hne hnonempty hmark,
    fun part => Placement.liesIn_of_markOf hl hm hline hin hmark⟩

/-- A piece of a line has the innermost of the labels whose marks it lies in. -/
theorem owner_iff_of_piece {fragments : List Fragment} {f : Fragment}
    (hp : Placement.ofLabels source labels = .ok p) (hfound : source.line index = .ok line)
    (hfragments : p.fragments index = .ok fragments) (hf : f ∈ fragments) (j : Nat) :
    f.owner = some j ↔ ∃ part, source.IsMark labels index j part ∧ f.span.LiesIn part ∧
      ∀ k other, source.IsMark labels index k other → f.span.LiesIn other →
        IsInner (j, part) (k, other) := by
  obtain ⟨rfl, _⟩ := Placement.ofLabels_eq_ok hp
  obtain ⟨i, rfl, hline⟩ := Source.exists_line_of_ok hfound
  obtain ⟨slice, hslice, _⟩ := Source.exists_lineSlice hline
  have hpartition := Placement.fragments_partition hline hslice hfragments
  have hbyte : f.span.Holds f.span.start := ⟨Nat.le_refl _, (hpartition.nonempty f hf).1⟩
  have hholds : ∀ {k other}, p.source.IsMark labels i k other →
      (f.span.LiesIn other ↔ other.Holds f.span.start) := by
    intro k other hother
    rw [← Span.covers_iff_liesIn]
    exact Placement.covers_iff_holds hline hfragments hf hbyte ((Placement.isMark_iff hp).mp hother)
  rw [Placement.owner_eq_some_iff hp hline hfragments hf hbyte]
  constructor
  · rintro ⟨part, hpart⟩
    exact ⟨part, hpart.isMark, (hholds hpart.isMark).mpr hpart.holds,
      fun k other hother hin => hpart.inner k other hother ((hholds hother).mp hin)⟩
  · rintro ⟨part, hpart, hlies, hinner⟩
    exact ⟨part, hpart, (hholds hpart).mp hlies,
      fun k other hother hin => hinner k other hother ((hholds hother).mpr hin)⟩

/-- Where a label is marked, a piece of the line is given a label around it exactly when the line cuts the
two off alike, the one around comes first, and no other label on the piece is further in. The label inside
is then not shown on the line at all. -/
theorem label_of_nested_piece {fragments : List Fragment}
    (hp : Placement.ofLabels source labels = .ok p) (hfound : source.line index = .ok line)
    (hfragments : p.fragments index = .ok fragments) (houter : (sortLabels labels)[a]? = some outer)
    (hinner : (sortLabels labels)[b]? = some inner) (hin : inner.span.LiesIn outer.span)
    (hne : inner.span ≠ outer.span) (hnonempty : inner.span.start < inner.span.stop)
    (hmark : source.localSpan index inner.span = .ok (some mark)) :
    (source.localSpan index outer.span = .ok (some mark) ↔ line.CutsAlike outer.span inner.span) ∧
    (outer.span.start < inner.span.start → a < b) ∧
    ∀ f ∈ fragments, f.span.LiesIn mark →
      (f.owner = some a ↔ line.CutsAlike outer.span inner.span ∧ a < b ∧
        ∀ k other, source.IsMark labels index k other → f.span.LiesIn other →
          IsInner (a, mark) (k, other)) ∧
      (line.CutsAlike outer.span inner.span → a < b → f.owner ≠ some b) := by
  obtain ⟨halike, hpart⟩ := outer_mark_cases hp hfound houter hinner hin hne hnonempty hmark
  refine ⟨halike, sortLabels_index_lt houter hinner, fun f hf hlies => ?_⟩
  have howner := owner_iff_of_piece hp hfound hfragments hf
  have hinnerMark : source.IsMark labels index b mark := ⟨inner, hinner, hmark⟩
  constructor
  · rw [howner]
    constructor
    · rintro ⟨part, ⟨found, hfoundLabel, hlocal⟩, _, hleast⟩
      cases houter.symm.trans hfoundLabel
      have hle := hleast b mark hinnerMark hlies
      obtain ⟨hstart, hstop⟩ := hpart part hlocal
      have horder := mark.start_le_stop
      simp only [IsInner, Span.length] at hle
      obtain rfl : part = mark := Span.eq_of_bounds (by omega) (by omega)
      have hab : a ≠ b := by
        rintro rfl
        exact hne (congrArg Label.span (Option.some.inj (hinner.symm.trans houter)))
      exact ⟨halike.mp hlocal, by omega, hleast⟩
    · rintro ⟨hcuts, _, hleast⟩
      exact ⟨mark, ⟨outer, houter, halike.mpr hcuts⟩, hlies, hleast⟩
  · intro hcuts hlt hb
    obtain ⟨part, ⟨found, hfoundLabel, hlocal⟩, _, hleast⟩ := (howner b).mp hb
    cases hinner.symm.trans hfoundLabel
    cases hmark.symm.trans hlocal
    have hle := hleast a mark ⟨outer, houter, halike.mpr hcuts⟩ hlies
    simp only [IsInner] at hle
    omega

end Nested

/-- Two lines of one character. -/
def twoLines : Source :=
  Source.ofText ['a', '\n', 'b']

/-- A label on both lines, and one inside it on the second line. -/
def sharedEnd : List Label :=
  [⟨.between 0 3, "outer", .basic .red⟩, ⟨.between 2 3, "inner", .basic .blue⟩]

theorem sharedEnd_sorted : sortLabels sharedEnd = sharedEnd := by
  simp [sortLabels, sharedEnd, List.mergeSort, Span.between]

theorem sharedEnd_inner : ∃ p fragments,
    Placement.ofLabels twoLines sharedEnd = .ok p ∧ twoLines.line 1 = .ok ⟨2, 1, 2, 1⟩ ∧
      p.fragments 1 = .ok fragments ∧
      twoLines.localSpan 1 (.between 2 3) = .ok (some (.between 0 1)) ∧
      twoLines.localSpan 1 (.between 0 3) = .ok (some (.between 0 1)) ∧
      ∀ f ∈ fragments, f.span.LiesIn (.between 0 1) → f.owner ≠ some 1 := by
  have hline : twoLines.line 1 = .ok ⟨2, 1, 2, 1⟩ := by decide
  have hfit : ∀ label ∈ sharedEnd, label.span.stop ≤ twoLines.byteLen := by decide
  have haligned : twoLines.MarksAligned sharedEnd 1 ⟨2, 1, 2, 1⟩ := by decide
  obtain ⟨p, fragments, hp, hfragments⟩ :=
    Placement.exists_fragments hfit (show twoLines.lines[1]? = some ⟨2, 1, 2, 1⟩ by decide) haligned
  have hmark : twoLines.localSpan 1 (.between 2 3) = .ok (some (.between 0 1)) := by decide
  have halike : Line.CutsAlike ⟨2, 1, 2, 1⟩ (.between 0 3) (.between 2 3) := .inr (by decide)
  have houter : (sortLabels sharedEnd)[0]? = some ⟨.between 0 3, "outer", .basic .red⟩ := by
    rw [sharedEnd_sorted]
    rfl
  have hinner : (sortLabels sharedEnd)[1]? = some ⟨.between 2 3, "inner", .basic .blue⟩ := by
    rw [sharedEnd_sorted]
    rfl
  obtain ⟨houterMark, hlt, hpieces⟩ := label_of_nested_piece hp hline hfragments houter hinner
    ⟨by decide, by decide⟩ (by decide) (by decide) hmark
  exact ⟨p, fragments, hp, hline, hfragments, hmark, houterMark.mpr halike,
    fun f hf hlies => (hpieces f hf hlies).2 halike (hlt (by decide))⟩

/-- On the second line the label inside is not shown, although the other one lies around it. -/
theorem sharedEnd_shows_outer : sortLabels sharedEnd = sharedEnd ∧
    (Span.between 2 3).LiesIn (.between 0 3) ∧ Span.between 2 3 ≠ .between 0 3 ∧
    twoLines.localSpan 1 (.between 2 3) = .ok (some (.between 0 1)) ∧
    (Placement.ofLabels twoLines sharedEnd >>= fun p => p.fragments 1).map
      (List.map fun f => (f.span.start, f.span.stop, f.owner)) = .ok [(0, 1, some 0)] := by
  refine ⟨sharedEnd_sorted, ⟨by decide, by decide⟩, by decide, by decide, ?_⟩
  have hplaced : sharedEnd.mapM (place twoLines) = .ok [⟨⟨.between 0 3, "outer", .basic .red⟩, 0, 1⟩,
      ⟨⟨.between 2 3, "inner", .basic .blue⟩, 1, 1⟩] := rfl
  rw [← sharedEnd_sorted] at hplaced
  obtain ⟨⟨_, _, _, _⟩, hp, rfl, rfl⟩ := Placement.ofLabels_of_place hplaced
  rw [hp]
  rfl

end Callout

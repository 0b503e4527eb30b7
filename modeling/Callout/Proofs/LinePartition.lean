import Callout.Proofs.LineFragments

namespace Callout

/-- Pieces with the given texts that lie side by side from the start of a line to its end. -/
structure Partitions (source : Source) (line : Line) (slice : List Char) (fragments : List Fragment) :
    Prop where
  nonempty : ∀ f ∈ fragments, f.span.start < f.span.stop ∧ f.text ≠ []
  contiguous : 0 :: fragments.map (fun f => f.span.stop) =
    fragments.map (fun f => f.span.start) ++ [line.byteLen]
  flatten_eq : (fragments.map Fragment.text).flatten = slice
  decode_eq : ∀ f ∈ fragments, Utf8.decode ((source.bytes.drop (line.byteOffset + f.span.start)).take
    (f.span.stop - f.span.start)) = .ok f.text

/-- Whether a part of a line lies in a mark, or outside of it. -/
def Span.InOrOut (mark part : Span) : Prop :=
  mark.start ≤ part.start ∧ part.stop ≤ mark.stop ∨ mark.stop ≤ part.start ∨ part.stop ≤ mark.start

/-- Whether the marks of all labels on a line start and stop at boundaries of characters. -/
def Source.MarksAligned (s : Source) (labels : List Label) (i : Nat) (line : Line) : Prop :=
  ∀ label ∈ labels, ∀ mark, s.localSpan i label.span = .ok (some mark) →
    IsBoundary s.text (line.byteOffset + mark.start) ∧ IsBoundary s.text (line.byteOffset + mark.stop)

instance (s : Source) (labels : List Label) (i : Nat) (line : Line) :
    Decidable (s.MarksAligned labels i line) :=
  decidable_of_iff (∀ label ∈ labels, ∀ mark ∈ (s.localSpan i label.span).toOption.join,
    IsBoundary s.text (line.byteOffset + mark.start) ∧
      IsBoundary s.text (line.byteOffset + mark.stop)) <| by
    refine forall₃_congr fun label _ mark => imp_congr_left ?_
    cases s.localSpan i label.span with
    | error => simp [Except.toOption]
    | ok found => simp [Except.toOption]

theorem Source.decode_of_textBetween {s : Source} {start stop : Nat} {text : List Char}
    (h : s.textBetween start stop = .ok text) :
    Utf8.decode ((s.bytes.drop start).take (stop - start)) = .ok text := by
  unfold textBetween at h
  rw [offset_natCast, offset_natCast, between?] at h
  cases hdecode : Utf8.decode ((s.bytes.drop start).take (stop - start)) with
  | ok found =>
    rw [hdecode] at h
    cases h
    rfl
  | error fault =>
    rw [hdecode] at h
    obtain ⟨span, _, h⟩ := bind_eq_ok_iff.mp h
    cases h

theorem pieces_contiguous {first last : Nat} {rest : List Nat}
    (h : (first :: rest).getLast? = some last) :
    first :: (pieces (first :: rest)).map Prod.snd = (pieces (first :: rest)).map Prod.fst ++ [last] := by
  induction rest generalizing first with
  | nil =>
    cases h
    rfl
  | cons second rest ih =>
    have hpieces : pieces (first :: second :: rest) = (first, second) :: pieces (second :: rest) := rfl
    rw [List.getLast?_cons_cons] at h
    rw [hpieces, List.map_cons, List.map_cons, ih h, List.cons_append]

/-- No cut lies inside a piece. -/
theorem cut_outside_piece {cuts : List Nat} (hinc : cuts.Pairwise (· < ·)) {piece : Nat × Nat}
    (hpiece : piece ∈ pieces cuts) {cut : Nat} (hcut : cut ∈ cuts) : cut ≤ piece.1 ∨ piece.2 ≤ cut := by
  induction cuts with
  | nil => cases hcut
  | cons first rest ih =>
    cases rest with
    | nil => cases hpiece
    | cons second rest =>
      obtain ⟨hfirst, hrest⟩ := List.pairwise_cons.mp hinc
      have hafter : ∀ c ∈ second :: rest, second ≤ c := by
        intro c hc
        rcases List.mem_cons.mp hc with rfl | hc
        · exact Nat.le_refl _
        · exact Nat.le_of_lt ((List.pairwise_cons.mp hrest).1 c hc)
      rcases List.mem_cons.mp hpiece with rfl | hlater
      · rcases List.mem_cons.mp hcut with rfl | hcut
        · exact .inl (Nat.le_refl _)
        · exact .inr (hafter cut hcut)
      · rcases List.mem_cons.mp hcut with rfl | hcut
        · exact .inl (Nat.le_of_lt (hfirst _ (mem_pieces hrest hlater).1))
        · exact ih hrest hlater hcut

namespace Placement

variable {p : Placement} {i : Nat} {line : Line} {slice : List Char}

theorem localSpan_eq_markOf {l : Placed} (hl : l ∈ p.labels) (index : Int) :
    p.source.localSpan index l.label.span = .ok (p.markOf index l) := by
  rw [Source.localSpan, p.lines_eq l hl]
  exact mark?_eq_ok hl index

theorem alignedOn_iff_offsets (hline : p.source.lines[i]? = some line)
    (hslice : p.source.lineSlice i = .ok slice) : p.AlignedOn i ↔
      ∀ l ∈ p.labels, ∀ mark, p.markOf i l = some mark →
        IsBoundary p.source.text (line.byteOffset + mark.start) ∧
          IsBoundary p.source.text (line.byteOffset + mark.stop) := by
  rw [alignedOn_iff_marks hline hslice]
  refine forall₄_congr fun l hl mark hmark => ?_
  have hstop := markOf_stop_le hl hline hmark
  rw [Source.isBoundary_slice_iff hline hslice hstop,
    Source.isBoundary_slice_iff hline hslice (Nat.le_trans mark.start_le_stop hstop)]

theorem marksAligned_iff {source : Source} {labels : List Label} (hp : ofLabels source labels = .ok p)
    (hline : source.lines[i]? = some line) : source.MarksAligned labels i line ↔ p.AlignedOn i := by
  obtain ⟨rfl, _⟩ := ofLabels_eq_ok hp
  obtain ⟨slice, hslice, _⟩ := Source.exists_lineSlice hline
  rw [alignedOn_iff_offsets hline hslice]
  constructor
  · intro hmarks l hl mark hmark
    have hlabel : l.label ∈ labels := (mem_labels_iff hp).mpr ⟨l, hl, rfl⟩
    exact hmarks l.label hlabel mark (by rw [localSpan_eq_markOf hl, hmark])
  · intro hmarks label hlabel mark hmark
    obtain ⟨l, hl, rfl⟩ := (mem_labels_iff hp).mp hlabel
    rw [localSpan_eq_markOf hl] at hmark
    exact hmarks l hl mark (Except.ok.inj hmark)

/-- Labels that fit are placed, and a line on which they are aligned is cut. -/
theorem exists_fragments {source : Source} {labels : List Label}
    (hfit : ∀ label ∈ labels, label.span.stop ≤ source.byteLen) (hline : source.lines[i]? = some line)
    (haligned : source.MarksAligned labels i line) :
    ∃ p fragments, ofLabels source labels = .ok p ∧ p.fragments i = .ok fragments := by
  obtain ⟨p, hp⟩ := exists_ofLabels_iff.mpr hfit
  obtain ⟨slice, hslice, _⟩ := Source.exists_lineSlice hline
  have halignedOn := (marksAligned_iff hp hline).mp haligned
  obtain ⟨rfl, _⟩ := ofLabels_eq_ok hp
  obtain ⟨fragments, hfragments, _⟩ := fragments_of_alignedOn hline hslice halignedOn
  exact ⟨p, fragments, hp, hfragments⟩

theorem fragment_bounds {index : Int} {marks : List (Nat × Span)} {piece : Nat × Nat} {f : Fragment}
    (h : p.fragment index line marks piece = .ok f) : (f.span.start, f.span.stop) = piece ∧
      p.source.textBetween (line.byteOffset + piece.1 : Nat) (line.byteOffset + piece.2 : Nat) =
        .ok f.text := by
  obtain ⟨text, htext, h⟩ := bind_eq_ok_iff.mp h
  obtain ⟨span, hspan, h⟩ := bind_eq_ok_iff.mp h
  cases h
  refine ⟨?_, htext⟩
  obtain ⟨hstart, hstop⟩ := Span.ofBounds_eq_ok_iff.mp hspan
  exact Prod.ext (Int.ofNat.inj hstart) (Int.ofNat.inj hstop)

theorem fragments_spans {fragments : List Fragment} (hline : p.source.lines[i]? = some line)
    (h : p.fragments i = .ok fragments) :
    fragments.map (fun f => (f.span.start, f.span.stop)) =
      pieces (cuts line.byteLen (p.touching i)) ∧
    ∀ f ∈ fragments, p.source.textBetween (line.byteOffset + f.span.start : Nat)
      (line.byteOffset + f.span.stop : Nat) = .ok f.text := by
  rw [Placement.fragments, Source.line_eq_ok_iff.mpr hline, marks_eq_touching] at h
  have hall := (mapM_eq_ok_iff (f := p.fragment i line (p.touching i))).mp h
  constructor
  · have heq : List.Forall₂ (· = ·) (pieces (cuts line.byteLen (p.touching i)))
        (fragments.map fun f => (f.span.start, f.span.stop)) :=
      List.forall₂_map_right_iff.mpr (hall.imp fun _ _ hf => (fragment_bounds hf).1.symm)
    rw [List.forall₂_eq_eq_eq] at heq
    exact heq.symm
  · intro f hf
    obtain ⟨piece, _, hpiece⟩ := exists_of_mem_mapM (f := p.fragment i line (p.touching i)) h hf
    obtain ⟨rfl, htext⟩ := fragment_bounds hpiece
    exact htext

theorem fragments_partition {fragments : List Fragment} (hline : p.source.lines[i]? = some line)
    (hslice : p.source.lineSlice i = .ok slice) (h : p.fragments i = .ok fragments) :
    Partitions p.source line slice fragments := by
  obtain ⟨hspans, htexts⟩ := fragments_spans hline h
  have hlength := (List.getElem?_eq_some_iff.mp hline).1
  obtain ⟨found, hfound, hflatten, _⟩ :=
    fragments_of_alignedOn hline hslice (alignedOn_of_fragments hlength h)
  cases h.symm.trans hfound
  obtain ⟨rest, hcuts, hlast⟩ := cuts_eq_cons line.byteLen (p.touching i)
  have hend := Source.lines_byteEnd_le_byteLen hline
  have hbyteEnd : line.byteEnd = line.byteOffset + line.byteLen := rfl
  have hbounds : ∀ f ∈ fragments, f.span.start < f.span.stop ∧ f.span.stop ≤ line.byteLen := by
    intro f hf
    exact piece_bounds (hspans ▸ List.mem_map_of_mem hf)
  refine ⟨?_, ?_, hflatten, ?_⟩
  · intro f hf
    obtain ⟨hlt, hle⟩ := hbounds f hf
    refine ⟨hlt, ?_⟩
    obtain ⟨_, _, _, _, hwidth⟩ := (Source.textBetween_eq_ok_iff (by omega) (by omega)).mp (htexts f hf)
    intro hnil
    rw [hnil, byteWidth_nil] at hwidth
    omega
  · have hcontiguous := pieces_contiguous hlast
    rw [← hcuts, ← hspans, List.map_map, List.map_map] at hcontiguous
    exact hcontiguous
  · intro f hf
    have hdecode := Source.decode_of_textBetween (htexts f hf)
    rwa [Nat.add_sub_add_left] at hdecode

theorem fragments_inOrOut {fragments : List Fragment} (hline : p.source.lines[i]? = some line)
    (h : p.fragments i = .ok fragments) {f : Fragment} (hf : f ∈ fragments) {l : Placed}
    (hl : l ∈ p.labels) {mark : Span} (hmark : p.markOf i l = some mark) : mark.InOrOut f.span := by
  obtain ⟨hspans, _⟩ := fragments_spans hline h
  have hpiece : (f.span.start, f.span.stop) ∈ pieces (cuts line.byteLen (p.touching i)) :=
    hspans ▸ List.mem_map_of_mem hf
  obtain ⟨j, hj⟩ := List.mem_iff_getElem?.mp hl
  have hmem : (j, mark) ∈ p.touching i := mem_touching_iff.mpr ⟨l, hj, hmark⟩
  have hstop := markOf_stop_le hl hline hmark
  have hincreasing := cuts_increasing line.byteLen (p.touching i)
  have hfirst := cut_outside_piece hincreasing hpiece (mem_cuts_iff.mpr
    ⟨Nat.le_trans mark.start_le_stop hstop, .inr (.inr ⟨_, hmem, .inl rfl⟩)⟩)
  have hlast := cut_outside_piece hincreasing hpiece (mem_cuts_iff.mpr
    ⟨hstop, .inr (.inr ⟨_, hmem, .inr rfl⟩)⟩)
  simp only at hfirst hlast
  unfold Span.InOrOut
  omega

end Placement

/-- A line is cut into pieces unless a label on it starts or stops inside a character, which is then
reported. The pieces are not empty, they lie side by side from the start of the line to its end, each has
the text of its own bytes, and no label covers a part of one. -/
theorem fragments_of_line {source : Source} {labels : List Label} {i : Nat} {line : Line}
    (hfit : ∀ label ∈ labels, label.span.stop ≤ source.byteLen)
    (hline : source.lines[i]? = some line) :
    ∃ p slice, Placement.ofLabels source labels = .ok p ∧ source.lineSlice i = .ok slice ∧
      ((∃ fragments, p.fragments i = .ok fragments) ↔ source.MarksAligned labels i line) ∧
      (¬source.MarksAligned labels i line →
        ∃ span, p.fragments i = .error (.spanOutside span .misaligned)) ∧
      ∀ fragments, p.fragments i = .ok fragments → Partitions source line slice fragments ∧
        ∀ f ∈ fragments, ∀ label ∈ labels, ∀ mark,
          source.localSpan i label.span = .ok (some mark) → mark.InOrOut f.span := by
  obtain ⟨p, hp⟩ := Placement.exists_ofLabels_iff.mpr hfit
  obtain ⟨slice, hslice, _⟩ := Source.exists_lineSlice hline
  have haligned := Placement.marksAligned_iff hp hline
  have hlength := (List.getElem?_eq_some_iff.mp hline).1
  obtain ⟨rfl, hlabels⟩ := Placement.ofLabels_eq_ok hp
  refine ⟨p, slice, hp, hslice, ?_, ?_, ?_⟩
  · rw [haligned]
    constructor
    · rintro ⟨fragments, hfragments⟩
      exact Placement.alignedOn_of_fragments hlength hfragments
    · intro h
      obtain ⟨fragments, hfragments, _⟩ := Placement.fragments_of_alignedOn hline hslice h
      exact ⟨fragments, hfragments⟩
  · intro hnot
    exact Placement.fragments_of_not_alignedOn hline hslice (mt haligned.mpr hnot)
  · intro fragments hfragments
    refine ⟨Placement.fragments_partition hline hslice hfragments, ?_⟩
    intro f hf label hlabel mark hmark
    rw [← Placement.mem_sortLabels, ← hlabels] at hlabel
    obtain ⟨l, hl, rfl⟩ := List.mem_map.mp hlabel
    rw [Placement.localSpan_eq_markOf hl] at hmark
    exact Placement.fragments_inOrOut hline hfragments hf hl (Except.ok.inj hmark)

/-- A line with a character of two bytes, and one more line. -/
def accented : Source :=
  Source.ofText ['a', 'é', '\n', 'b']

/-- The character of two bytes, and what stands between it and the end. -/
def accents : List Label :=
  [⟨.between 1 3, "accent", .default⟩, ⟨.between 3 5, "behind", .default⟩]

theorem accented_fragments :
    (∀ label ∈ accents, label.span.stop ≤ accented.byteLen) ∧
    accented.lines[0]? = some ⟨0, 3, 0, 4⟩ ∧
    ∃ p slice fragments, Placement.ofLabels accented accents = .ok p ∧
      accented.lineSlice (0 : Nat) = .ok slice ∧ p.fragments (0 : Nat) = .ok fragments ∧
      Partitions accented ⟨0, 3, 0, 4⟩ slice fragments := by
  have hfit : ∀ label ∈ accents, label.span.stop ≤ accented.byteLen := by decide
  have hline : accented.lines[0]? = some ⟨0, 3, 0, 4⟩ := by decide
  have haligned : accented.MarksAligned accents 0 ⟨0, 3, 0, 4⟩ := by
    have hmarks : ∀ label ∈ accents, (accented.localSpan (0 : Nat) label.span).toOption.join.all fun mark =>
        IsBoundary accented.text (0 + mark.start) ∧ IsBoundary accented.text (0 + mark.stop) := by decide
    intro label hlabel mark hmark
    have hall := hmarks label hlabel
    rw [hmark] at hall
    exact of_decide_eq_true hall
  obtain ⟨p, slice, hp, hslice, hcut, _, hpieces⟩ := fragments_of_line hfit hline
  obtain ⟨fragments, hfragments⟩ := hcut.mpr haligned
  exact ⟨hfit, hline, p, slice, fragments, hp, hslice, hfragments, (hpieces fragments hfragments).1⟩

end Callout
